import ScaleFactor.Proofs.RuleSet.Plain
import ScaleFactor.Proofs.Totals.History

/-!
# Answers without a memo

The answer of a rule set is the answer of the summary of its kept outcomes, read without a memo
(`RuleSet.answer_combine`). Under every strategy but the random one it takes no word either, so that
it is a function of the rules, the value and the settings alone: `RuleSet.settledResult`.
-/

namespace ScaleFactor

/-- A memo is in order after any requests. -/
theorem Memo.sound_after_empty (capacity : Nat) (requests : List Request) :
    ((empty capacity).after requests).Sound :=
  (sound_empty capacity).after requests

/-- Nothing but a random choice looks at the words. -/
theorem Totals.result_answer_of_ne_random (t : Totals) {strategy : Strategy}
    (h : strategy ≠ .random) (words others : List UInt64) :
    (t.answer strategy words).result = (t.answer strategy others).result := by
  unfold answer
  split
  · cases strategy with
    | random => exact absurd rfl h
    | last | first | average | maximum | minimum | sum | overlaps | noOverlap => rfl
  · rfl

namespace RuleSet

variable {memo : Memo}

theorem totals_pass_eq_summary (hm : memo.Sound) (s : RuleSet) (x : Binary64) (only : Filter) :
    (s.pass x only memo).totals = Totals.summary (s.kept x only) := by
  rw [totals_pass hm, Totals.ofOutcomes_eq_summary]

theorem sound_memo_combine (hm : memo.Sound) (s : RuleSet) (x : Binary64) (c : Settings)
    (words : List UInt64) : (s.combine x c memo words).memo.Sound := by
  show (s.pass x c.only memo).memo.Sound
  rw [memo_pass]
  exact hm.after _

theorem answer_combine (hm : memo.Sound) (s : RuleSet) (x : Binary64) (c : Settings)
    (words : List UInt64) : (s.combine x c memo words).answer =
      (Totals.summary (s.kept x c.only)).answer c.strategy words := by
  show (s.pass x c.only memo).totals.answer c.strategy words = _
  rw [totals_pass_eq_summary hm]

/-- What the rules come to on a value, as far as nothing is left to chance. -/
def settledResult (s : RuleSet) (c : Settings) (x : Binary64) : Except Overlap Binary64 :=
  ((Totals.summary (s.kept x c.only)).answer c.strategy []).result

theorem result_combine (hm : memo.Sound) (s : RuleSet) (x : Binary64) {c : Settings}
    (hc : c.strategy ≠ .random) (words : List UInt64) :
    (s.combine x c memo words).answer.result = s.settledResult c x := by
  rw [answer_combine hm]
  exact Totals.result_answer_of_ne_random _ hc _ _

end RuleSet

end ScaleFactor
