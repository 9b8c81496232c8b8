import ScaleFactor.Proofs.RuleSet.Answer
import ScaleFactor.Proofs.Totals.Random

/-!
# Draws from one source, call after call

A rule set is asked for one value after the other, and all its answers draw from one source of words.
A call finds the source where the calls before it left it, that is behind as many words as they drew
together (`getElem?_combineEach`); the memo is handed on in the same way, but it does not show in the
answers. So each call can be told from its value and its place in the source alone.
-/

namespace ScaleFactor.RuleSet

open Draw

/-- How many words calls drew together. -/
def drawn (calls : List Combined) : Nat := (calls.map (·.answer.draws)).sum

theorem drawn_cons (call : Combined) (calls : List Combined) :
    drawn (call :: calls) = call.answer.draws + drawn calls := List.sum_cons

/-- A call starts behind the words that were drawn before it, with a memo in order. -/
theorem getElem?_combineEach {memo : Memo} (hm : memo.Sound) (s : RuleSet) (c : Settings)
    (words : List UInt64) {xs : List Binary64} {k : Nat} {x : Binary64} (hx : xs[k]? = some x) :
    let calls := s.combineEach c memo words xs
    ∃ known : Memo, known.Sound ∧
      calls[k]? = some (s.combine x c known (words.drop (drawn (calls.take k)))) := by
  induction xs generalizing memo words k with
  | nil => cases hx
  | cons first xs ih =>
    cases k with
    | zero =>
      obtain rfl : first = x := Option.some.inj hx
      exact ⟨memo, hm, rfl⟩
    | succ k =>
      obtain ⟨known, hknown, hcall⟩ := ih (sound_memo_combine hm s first c words)
        (s.combine first c memo words).answer.words hx
      refine ⟨known, hknown, ?_⟩
      -- the words left by the first call are those behind its own draws
      have hwords : (s.combine first c memo words).answer.words =
          words.drop (s.combine first c memo words).answer.draws :=
        Totals.words_answer _ c.strategy words
      rw [combineEach, List.getElem?_cons_succ, hcall, List.take_succ_cons, drawn_cons,
        ← List.drop_drop, hwords]

theorem length_combineEach (s : RuleSet) (c : Settings) (memo : Memo) (words : List UInt64)
    (xs : List Binary64) : (s.combineEach c memo words xs).length = xs.length := by
  induction xs generalizing memo words with
  | nil => rfl
  | cons x xs ih => rw [combineEach, List.length_cons, ih, List.length_cons]

/-- **Every random answer ends, stays in bounds and accounts for its draws.** There is one call for
each value. It starts behind the words drawn by the calls before it, and answers what the kept
outcomes of its value come to with the words that are left, whatever else was done before. A random
choice among results ends: it draws the words that are rejected for so many results and one more,
never more than one word beyond those left, and the accepted word picks a result within bounds. Any
other answer, and any answer without results, draws nothing. -/
theorem combineEach_draws (s : RuleSet) (c : Settings) (capacity : Nat)
    (requests : List Memo.Request) (words : List UInt64) (xs : List Binary64) :
    let calls := s.combineEach c ((Memo.empty capacity).after requests) words xs
    calls.length = xs.length ∧
      ∀ k x, xs[k]? = some x → ∃ call, calls[k]? = some call ∧
        let t := Totals.ofOutcomes (s.kept x c.only)
        let start := drawn (calls.take k)
        let left := words.drop start
        call.totals = t ∧
          call.answer = t.answer c.strategy left ∧
          call.answer.words = words.drop (start + call.answer.draws) ∧
          (c.strategy = .random → 0 < t.size →
            ∃ run value, StopsAfter t.size (source words) start run ∧
              call.answer.draws = run + 1 ∧
              call.answer.draws ≤ left.length + 1 ∧
              t.values[wordIndex t.size (source words (start + run))]? = some value ∧
              call.answer.result = .ok value) ∧
          (c.strategy ≠ .random ∨ t.size = 0 → call.answer.draws = 0) := by
  intro calls
  refine ⟨s.length_combineEach c _ words xs, ?_⟩
  intro k x hx
  obtain ⟨known, hknown, hcall⟩ :=
    getElem?_combineEach (Memo.sound_after_empty capacity requests) s c words hx
  refine ⟨_, hcall, ?_⟩
  intro t start left
  have htotals : (s.pass x c.only known).totals = t := totals_pass hknown s x c.only
  have hanswer : (s.combine x c known left).answer = t.answer c.strategy left :=
    congrArg (fun totals => Totals.answer totals c.strategy left) htotals
  refine ⟨htotals, hanswer, ?_, ?_, ?_⟩
  · rw [hanswer, Totals.words_answer, List.drop_drop]
  · intro hrandom hpos
    obtain ⟨run, hle, hstops, value, hvalue, hpick⟩ := Totals.answer_random hpos left
    rw [source_drop] at hvalue
    rw [hanswer, hrandom, hpick]
    exact ⟨run, value, stopsAfter_drop hstops, rfl, Nat.succ_le_succ hle, hvalue, rfl⟩
  · intro hsettled
    rw [hanswer]
    exact (Totals.answer_eq_settled hsettled left).1

/-- The first of these words is rejected for three results; the last call finds no word left. -/
example : ((combineEach ⟨["<1?1:2", ">1?1:2", "=1?1:2"]⟩ (.ofStrategy .random) (Memo.empty 1)
    [0x5555555555555555, 0x8000000000000000] [.zero, .nan]).map (·.answer.draws)) = [2, 1] := by
  decide +kernel

end ScaleFactor.RuleSet
