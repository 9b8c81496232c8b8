import ScaleFactor.Proofs.Binary64.Exact
import ScaleFactor.Proofs.RuleSet.Answer
import ScaleFactor.Proofs.Totals.Parts
import ScaleFactor.Proofs.Totals.Random

/-!
# Rule sets with one rule

A set with one rule has one outcome to answer from. Some strategies pick an outcome, and there is
only this one, whatever word is drawn. The bounds start at it, so that nothing is compared. The sum
starts at zero and the average is divided by one, which leaves every number as it is but for the sign
of a zero (`Binary64.dropZeroSign_zero_add`, `Binary64.div_ofNat_one`). And a single match has no
other to overlap with.
-/

namespace ScaleFactor

/-! ## Answers of one outcome -/

namespace Totals

section One

variable (o : Outcome) (words : List UInt64)

/-- Whichever word is accepted in the end, there is one index it can stand for. -/
theorem result_answer_random_singleton :
    ((summary [o]).answer .random words).result = .ok o.value := by
  obtain ⟨run, -, -, value, hvalue, hanswer⟩ :=
    answer_random (size_values_pos (List.cons_ne_nil o [])) words
  have hmem : value ∈ (summary [o]).values := Array.mem_of_getElem? hvalue
  have heq : value = o.value := by simpa [summary] using hmem
  rw [hanswer, heq]

theorem result_answer_picked {strategy : Strategy} (h : strategy ∈ [.first, .last, .random]) :
    ((summary [o]).answer strategy words).result = .ok o.value := by
  simp only [List.mem_cons, List.not_mem_nil, or_false] at h
  rcases h with rfl | rfl | rfl
  · rw [answer_first_eq]
    rfl
  · rw [answer_last_eq]
    rfl
  · exact result_answer_random_singleton o words

theorem result_answer_folded {strategy : Strategy}
    (h : strategy ∈ [.maximum, .minimum, .sum, .average]) :
    ∃ y, ((summary [o]).answer strategy words).result = .ok y ∧
      y.dropZeroSign = o.value.dropZeroSign := by
  have hne : [o] ≠ [] := List.cons_ne_nil o []
  simp only [List.mem_cons, List.not_mem_nil, or_false] at h
  rcases h with rfl | rfl | rfl | rfl
  · refine ⟨o.value, ?_, rfl⟩
    rw [answer_maximum hne]
    rfl
  · refine ⟨o.value, ?_, rfl⟩
    rw [answer_minimum hne]
    rfl
  · refine ⟨.zero + o.value, ?_, Binary64.dropZeroSign_zero_add o.value⟩
    rw [answer_sum hne]
    rfl
  · refine ⟨.zero + o.value, ?_, Binary64.dropZeroSign_zero_add o.value⟩
    have hsum : sumOf [o] = .zero + o.value := rfl
    rw [answer_average hne, List.length_singleton, Binary64.div_ofNat_one, hsum]

theorem result_answer_counted {strategy : Strategy} (h : strategy ∈ [.overlaps, .noOverlap]) :
    ((summary [o]).answer strategy words).result = .ok .zero := by
  have hcount : matchCount [o] ≤ 1 := List.countP_le_length
  obtain ⟨hoverlaps, hnoOverlap⟩ := result_answer_of_matchCount_le_one words hcount
  simp only [List.mem_cons, List.not_mem_nil, or_false] at h
  rcases h with rfl | rfl
  · exact hoverlaps
  · exact hnoOverlap

end One

end Totals

/-! ## The answer of one rule -/

namespace RuleSet

/-- **One rule comes to what it says.** If the filter keeps its outcome, the strategies that pick an
outcome answer with its value itself, those that put values together with the same number, where only
a zero may have another sign, and those that count overlaps find none. If the filter drops it, every
answer is zero. None of this hangs on what the memo knows or on the words that are drawn. -/
theorem combine_single_rule {text : String} {rule : Rule} (hread : Rule.read text = .ok rule)
    (x : Binary64) (only : Filter) (capacity : Nat) (requests : List Memo.Request)
    (words : List UInt64) :
    let memo := (Memo.empty capacity).after requests
    let answer (strategy : Strategy) :=
      (combine ⟨[text]⟩ x ⟨strategy, only⟩ memo words).answer.result
    ∃ o : Outcome, (memo.evaluate text x).result = .ok o ∧
      (only.keeps o.matched = true →
        (∀ strategy ∈ [.first, .last, .random], answer strategy = .ok o.value) ∧
          (∀ strategy ∈ [.maximum, .minimum, .sum, .average],
            ∃ y, answer strategy = .ok y ∧ y.dropZeroSign = o.value.dropZeroSign) ∧
          ∀ strategy ∈ [.overlaps, .noOverlap], answer strategy = .ok .zero) ∧
      (only.keeps o.matched = false → ∀ strategy, answer strategy = .ok .zero) := by
  intro memo answer
  have hm : memo.Sound := Memo.sound_after_empty capacity requests
  have hkept := kept_singleton x only hread
  have hanswer (strategy : Strategy) : answer strategy =
      ((Totals.summary (kept ⟨[text]⟩ x only)).answer strategy words).result :=
    congrArg Answer.result (answer_combine hm ⟨[text]⟩ x ⟨strategy, only⟩ words)
  refine ⟨rule.outcome x, ?_, ?_, ?_⟩
  · rw [hm.evaluate_result, hread]
    rfl
  · intro hkeeps
    replace hkept : kept ⟨[text]⟩ x only = [rule.outcome x] := hkept.trans (if_pos hkeeps)
    simp only [hanswer, hkept]
    exact ⟨fun _ => Totals.result_answer_picked _ words,
      fun _ => Totals.result_answer_folded _ words, fun _ => Totals.result_answer_counted _ words⟩
  · intro hdrops strategy
    replace hkept : kept ⟨[text]⟩ x only = [] :=
      hkept.trans (if_neg (ne_true_of_eq_false hdrops))
    rw [hanswer, hkept, Totals.answer_of_isEmpty]

theorem combine_single_rule_least_magnitude :
    let text := "<nan?inf:-5e-324"
    let least : Binary64 := .number true 1
    let rule : Rule := ⟨.less, .value .nan, .infinite false, least⟩
    let answer (strategy : Strategy) :=
      (combine ⟨[text]⟩ .nan ⟨strategy, .unmatched⟩ (Memo.empty 1) [7]).answer.result
    Rule.read text = .ok rule ∧ rule.outcome .nan = ⟨least, false⟩ ∧
      Filter.unmatched.keeps false = true ∧ answer .random = .ok least ∧
      ∃ y, answer .average = .ok y ∧ y.dropZeroSign = least := by
  intro text least rule answer
  have hread : Rule.read text = .ok rule := by decide +kernel
  obtain ⟨o, hevaluate, hkept, -⟩ := combine_single_rule hread .nan .unmatched 1 [] [7]
  obtain rfl : rule.outcome .nan = o := by
    rw [(Memo.sound_after_empty 1 []).evaluate_result, hread] at hevaluate
    exact Except.ok.inj hevaluate
  obtain ⟨hpicked, hfolded, -⟩ := hkept rfl
  exact ⟨hread, rfl, rfl, hpicked .random (by decide), hfolded .average (by decide)⟩

end RuleSet

end ScaleFactor
