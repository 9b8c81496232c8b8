import ScaleFactor.Proofs.RuleSet.Answer
import ScaleFactor.Proofs.Totals.Extremes
import ScaleFactor.Proofs.Totals.Parts

/-!
# Rule sets in another order

Rules in another order have the same outcomes in another order (`kept_perm`), for each of them is
read and applied on its own. Some strategies look at the outcomes without looking at their order. The
bounds are extremes of all the results, and an extreme has one rank, so that nothing but the sign of
a zero can tell two of them apart (`Answer.dropZeroSign`). And matches are only counted.

The running bounds themselves do depend on the order: they start at the first result, and a NaN there
is given up for the next one. `Totals.boundRank_perm` is where this stops mattering.
-/

namespace ScaleFactor

namespace Totals

variable {os more : List Outcome}

theorem matchCount_perm (h : os.Perm more) : matchCount os = matchCount more := h.countP_eq _

theorem dropZeroSign_boundOf_perm {choose : Binary64 → Binary64 → Binary64}
    {op : Int → Int → Int} {before : Binary64 → Binary64 → Bool} [Std.Associative op]
    [Std.Commutative op] (hc : Binary64.Choice choose op before) (h : os.Perm more) :
    (boundOf choose os).dropZeroSign = (boundOf choose more).dropZeroSign := by
  by_cases hos : os = []
  · subst hos
    rw [h.nil_eq]
  · have hmore : more ≠ [] := by
      rintro rfl
      exact hos h.eq_nil
    rw [Binary64.dropZeroSign_eq_iff_rank?_eq, rank?_boundOf hc hos, rank?_boundOf hc hmore]
    exact boundRank_perm h

end Totals

/-- The answer with a zero of either sign identified. -/
def Answer.dropZeroSign (a : Answer) : Answer :=
  { a with result := a.result.map Binary64.dropZeroSign }

namespace Totals

section Answers

variable {os more : List Outcome} (h : os.Perm more) {strategy : Strategy} (words : List UInt64)
include h

/-- An extreme of results in another order is the same number, and both zeros are one. -/
theorem dropZeroSign_answer_perm (hstrategy : strategy ∈ [.maximum, .minimum]) :
    ((summary os).answer strategy words).dropZeroSign =
      ((summary more).answer strategy words).dropZeroSign := by
  simp only [List.mem_cons, List.not_mem_nil, or_false] at hstrategy
  unfold Answer.dropZeroSign
  rcases hstrategy with rfl | rfl
  · rw [answer_maximum_eq, answer_maximum_eq, Except.map, Except.map,
      dropZeroSign_boundOf_perm Binary64.choice_greater h]
  · rw [answer_minimum_eq, answer_minimum_eq, Except.map, Except.map,
      dropZeroSign_boundOf_perm Binary64.choice_lesser h]

theorem answer_perm (hstrategy : strategy ∈ [.overlaps, .noOverlap]) :
    (summary os).answer strategy words = (summary more).answer strategy words := by
  simp only [List.mem_cons, List.not_mem_nil, or_false] at hstrategy
  rcases hstrategy with rfl | rfl
  · rw [answer_overlaps_eq, answer_overlaps_eq, matchCount_perm h]
  · rw [answer_noOverlap_eq, answer_noOverlap_eq, matchCount_perm h]

end Answers

end Totals

namespace RuleSet

theorem kept_perm {s t : RuleSet} (h : s.rules.Perm t.rules) (x : Binary64) (only : Filter) :
    (s.kept x only).Perm (t.kept x only) :=
  ((h.filterMap _).map _).filter _

/-- **The greatest and the least result are extremes of the results, and no order of the rules
changes them.** Of any outcomes at all the maximum is one of the results, none of the others exceeds
it, and it is a NaN only if all of them are; the minimum likewise. And rules in another order, each
set with a memo in any state, come to the same maximum and the same minimum, where only a zero may
have another sign, to the same number of overlaps and, if these are forbidden, to the same
refusal. -/
theorem combine_extremes_in_any_order (words : List UInt64) :
    (∀ os : List Outcome, os ≠ [] →
      ∃ greatest least,
        (Totals.ofOutcomes os).answer .maximum words = ⟨.ok greatest, 0, words⟩ ∧
        IsExtreme (fun x y => x.le y) (os.map (·.value)) greatest ∧
        (Totals.ofOutcomes os).answer .minimum words = ⟨.ok least, 0, words⟩ ∧
        IsExtreme (fun x y => y.le x) (os.map (·.value)) least) ∧
      ∀ s t : RuleSet, s.rules.Perm t.rules →
        ∀ (x : Binary64) (only : Filter) (capacity : Nat) (requests others : List Memo.Request),
          let answer (u : RuleSet) (known : List Memo.Request) (strategy : Strategy) :=
            (u.combine x ⟨strategy, only⟩ ((Memo.empty capacity).after known) words).answer
          (∀ strategy ∈ [.maximum, .minimum],
              (answer s requests strategy).dropZeroSign = (answer t others strategy).dropZeroSign) ∧
            ∀ strategy ∈ [.overlaps, .noOverlap],
              answer s requests strategy = answer t others strategy := by
  refine ⟨?_, ?_⟩
  · intro os hos
    rw [Totals.ofOutcomes_eq_summary, Totals.answer_maximum hos, Totals.answer_minimum hos]
    exact ⟨_, _, rfl, Totals.isExtreme_greatest hos, rfl, Totals.isExtreme_least hos⟩
  · intro s t hperm x only capacity requests others answer
    have hanswer (u : RuleSet) (known : List Memo.Request) (strategy : Strategy) :
        answer u known strategy = (Totals.summary (u.kept x only)).answer strategy words :=
      answer_combine (Memo.sound_after_empty capacity known) u x ⟨strategy, only⟩ words
    have hkept := kept_perm hperm x only
    simp only [hanswer]
    exact ⟨fun _ => Totals.dropZeroSign_answer_perm hkept words,
      fun _ => Totals.answer_perm hkept words⟩

theorem combine_extremes_in_any_order_nan_first :
    let os : List Outcome := [⟨.nan, false⟩, ⟨.infinite true, true⟩]
    let s : RuleSet := ⟨[">5?1:nan", "<5?-inf:0", "five", "=1?-3:0"]⟩
    let t : RuleSet := ⟨["=1?-3:0", "five", "<5?-inf:0", ">5?1:nan"]⟩
    let answer (u : RuleSet) (strategy : Strategy) :=
      (u.combine (.ofNat 1) ⟨strategy, .all⟩ (Memo.empty 1) []).answer
    os ≠ [] ∧ s.rules.Perm t.rules ∧
      (∃ greatest, (Totals.ofOutcomes os).answer .maximum [] = ⟨.ok greatest, 0, []⟩ ∧
        IsExtreme (fun x y => x.le y) [.nan, .infinite true] greatest) ∧
      (answer s .minimum).dropZeroSign = (answer t .minimum).dropZeroSign ∧
      answer s .noOverlap = answer t .noOverlap := by
  intro os s t answer
  have hos : os ≠ [] := List.cons_ne_nil _ _
  have hperm : s.rules.Perm t.rules := (List.reverse_perm s.rules).symm
  obtain ⟨hextremes, hanswers⟩ := combine_extremes_in_any_order []
  obtain ⟨greatest, -, hgreatest, hextreme, -, -⟩ := hextremes os hos
  obtain ⟨hbounds, hcounts⟩ := hanswers s t hperm (.ofNat 1) .all 1 [] []
  exact ⟨hos, hperm, ⟨greatest, hgreatest, hextreme⟩, hbounds .minimum (by decide),
    hcounts .noOverlap (by decide)⟩

-- the zero that comes first stays
example : let os : List Outcome := [⟨.signedZero true, true⟩, ⟨.zero, false⟩]
    ((Totals.ofOutcomes os).answer .maximum []).result = .ok (.signedZero true) ∧
      ((Totals.ofOutcomes os.reverse).answer .maximum []).result = .ok .zero := by decide +kernel

end RuleSet

end ScaleFactor
