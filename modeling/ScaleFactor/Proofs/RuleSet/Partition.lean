import ScaleFactor.Proofs.RuleSet.Answer
import ScaleFactor.Proofs.Totals.Parts

/-!
# The two halves of a pass

The filters `matched` and `unmatched` divide the outcomes of a rule set between them. Three passes
with the three filters go through the same rules, and what the unfiltered one keeps is what the two
others keep, mixed again in the order of the rules (`kept_all_interleaves`). All matches are in one
half, so the overlaps are too. The first result and the last one come from one half or the other, the
bounds are bounds of the halves, and a half that kept nothing does not show at all.

Rules with an unknown operator do not match, and texts that are no rules are in neither half.
-/

namespace ScaleFactor

namespace RuleSet

/-! ## The kept outcomes -/

theorem kept_all (s : RuleSet) (x : Binary64) : s.kept x .all = s.outcomes x :=
  List.filter_true _

theorem kept_all_interleaves (s : RuleSet) (x : Binary64) :
    Interleaves (s.kept x .matched) (s.kept x .unmatched) (s.kept x .all) := by
  rw [kept_all]
  exact Interleaves.filter (·.matched) (s.outcomes x)

/-- No match is lost with the unmatched outcomes. -/
theorem matchCount_kept_matched (s : RuleSet) (x : Binary64) :
    Totals.matchCount (s.kept x .matched) = Totals.matchCount (s.kept x .all) := by
  rw [kept_all]
  show ((s.outcomes x).filter (·.matched)).countP (·.matched) = (s.outcomes x).countP (·.matched)
  rw [List.countP_filter]
  simp only [Bool.and_self]

theorem matchCount_kept_unmatched (s : RuleSet) (x : Binary64) :
    Totals.matchCount (s.kept x .unmatched) = 0 := by
  show ((s.outcomes x).filter (!·.matched)).countP (·.matched) = 0
  rw [List.countP_filter, List.countP_eq_zero]
  simp

/-! ## The three passes -/

/-- **The filters `matched` and `unmatched` divide the unfiltered pass.** Each of the three passes
may find the memo in another state. The results of the whole are those of the halves, in order; the
whole overlaps as the matched half does and the unmatched one not at all, in numbers as well as in
having no answer; the first and the last result are those of a half that has any; of two halves with
results the greater maximum and the lesser minimum prevail; and beside a half without results the
other one answers as the whole does. -/
theorem combine_partition (s : RuleSet) (x : Binary64) (capacity : Nat)
    (requests : Filter → List Memo.Request) (words : List UInt64) :
    let memo (only : Filter) := (Memo.empty capacity).after (requests only)
    let totals (only : Filter) := (s.pass x only (memo only)).totals
    let answer (only : Filter) (strategy : Strategy) :=
      (s.combine x ⟨strategy, only⟩ (memo only) words).answer
    Interleaves (totals .matched).values.toList (totals .unmatched).values.toList
        (totals .all).values.toList ∧
      (totals .all).size = (totals .matched).size + (totals .unmatched).size ∧
      (totals .all).overlaps = (totals .matched).overlaps ∧
      (totals .unmatched).overlaps = 0 ∧
      answer .all .overlaps = answer .matched .overlaps ∧
      (answer .unmatched .overlaps).result = .ok .zero ∧
      answer .all .noOverlap = answer .matched .noOverlap ∧
      (answer .unmatched .noOverlap).result = .ok .zero ∧
      ((totals .all).isEmpty = false → ∀ strategy, strategy = .first ∨ strategy = .last →
        ((totals .matched).isEmpty = false ∧ answer .all strategy = answer .matched strategy) ∨
          ((totals .unmatched).isEmpty = false ∧
            answer .all strategy = answer .unmatched strategy)) ∧
      ((totals .matched).isEmpty = false → (totals .unmatched).isEmpty = false →
        Answer.Prevails (fun x y => x.le y) (answer .matched .maximum)
            (answer .unmatched .maximum) (answer .all .maximum) ∧
          Answer.Prevails (fun x y => y.le x) (answer .matched .minimum)
            (answer .unmatched .minimum) (answer .all .minimum)) ∧
      ((totals .matched).isEmpty = true →
        ∀ strategy, answer .all strategy = answer .unmatched strategy) ∧
      ((totals .unmatched).isEmpty = true →
        ∀ strategy, answer .all strategy = answer .matched strategy) := by
  intro memo totals answer
  have hmemo (only : Filter) : (memo only).Sound := Memo.sound_after_empty capacity (requests only)
  have htotals (only : Filter) : totals only = Totals.summary (s.kept x only) :=
    totals_pass_eq_summary (hmemo only) s x only
  have hanswer (only : Filter) (strategy : Strategy) :
      answer only strategy = (Totals.summary (s.kept x only)).answer strategy words :=
    answer_combine (hmemo only) s x ⟨strategy, only⟩ words
  have hmix := s.kept_all_interleaves x
  have hmatched := s.matchCount_kept_matched x
  have hunmatched := s.matchCount_kept_unmatched x
  clear_value memo totals answer
  simp only [htotals, hanswer, Totals.size_summary, Totals.isEmpty_summary]
  generalize s.kept x .matched = m at *
  generalize s.kept x .unmatched = u at *
  generalize s.kept x .all = a at *
  refine ⟨Totals.values_summary_interleaves hmix, hmix.length_eq, ?_, ?_, ?_, ?_, ?_, ?_, ?_, ?_, ?_, ?_⟩
  · show Totals.matchCount a - 1 = Totals.matchCount m - 1
    rw [hmatched]
  · show Totals.matchCount u - 1 = 0
    rw [hunmatched]
  · rw [Totals.answer_overlaps_eq, Totals.answer_overlaps_eq, hmatched]
  · rw [Totals.answer_overlaps_eq, hunmatched, Nat.zero_sub, Binary64.ofNat_zero]
  · rw [Totals.answer_noOverlap_eq, Totals.answer_noOverlap_eq, hmatched]
  · rw [Totals.answer_noOverlap_eq, hunmatched]
    rfl
  · intro hall strategy hstrategy
    simp only [List.isEmpty_eq_false_iff] at hall ⊢
    rcases hstrategy with rfl | rfl
    · exact Totals.answer_first_of_interleaves hmix hall words
    · exact Totals.answer_last_of_interleaves hmix hall words
  · intro hm hu
    rw [List.isEmpty_eq_false_iff] at hm hu
    exact ⟨Totals.prevails_answer_maximum hm hu hmix words,
      Totals.prevails_answer_minimum hm hu hmix words⟩
  · intro hm strategy
    obtain rfl : m = [] := List.isEmpty_iff.1 hm
    rw [hmix.eq_of_nil_left]
  · intro hu strategy
    obtain rfl : u = [] := List.isEmpty_iff.1 hu
    rw [hmix.eq_of_nil_right]

end RuleSet

end ScaleFactor
