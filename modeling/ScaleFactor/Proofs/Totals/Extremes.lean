import ScaleFactor.Proofs.Totals.Bounds

/-!
# Bounds are extremes

The bounds of totals start at the first result and go on from result to result, each time with the
greater or the lesser one of two. Here is what they are bounds of: all the results at once. A bound
is one of the results, no other result lies beyond it, and it is a NaN only if there is nothing else
(`isExtreme_greatest`, `isExtreme_least`).

The ranks of the results are whole numbers, as many as there are results that are no NaNs, and the
rank of a bound is their greatest or their least one (`boundRank_max`, `boundRank_min`). That a NaN
stood first, or that all results were negative or infinite, does not show there.
-/

namespace ScaleFactor

/-- `x` is one of the values, and every value comes before it in the order, apart from the NaNs. Only
among NaNs the extreme is a NaN. -/
structure IsExtreme (before : Binary64 → Binary64 → Bool) (values : List Binary64)
    (x : Binary64) : Prop where
  mem : x ∈ values
  isNaN_iff : x.isNaN = true ↔ ∀ y ∈ values, y.isNaN = true
  before_of_mem : ∀ y ∈ values, y.isNaN = false → before y x = true

namespace Totals

/-- The ranks of the results that have one. -/
def ranks (os : List Outcome) : List Int := os.filterMap (·.value.rank?)

theorem mem_ranks {os : List Outcome} {a : Int} :
    a ∈ ranks os ↔ ∃ o ∈ os, o.value.rank? = some a := List.mem_filterMap

theorem ranks_eq_nil_iff {os : List Outcome} :
    ranks os = [] ↔ ∀ o ∈ os, o.value.isNaN = true := by
  simp only [ranks, List.filterMap_eq_nil_iff, Binary64.rank?_eq_none_iff]

section Rank

variable {choose : Binary64 → Binary64 → Binary64} {op : Int → Int → Int}
  {before : Binary64 → Binary64 → Bool}

/-- What is left of the results is one of them. -/
theorem boundOf_mem (hc : Binary64.Choice choose op before) {os : List Outcome} (hos : os ≠ []) :
    ∃ o ∈ os, o.value = boundOf choose os := by
  induction os using List.reverseRecOn with
  | nil => exact absurd rfl hos
  | append_singleton os last ih =>
    rw [boundOf_append_singleton]
    by_cases hempty : os = []
    · exact ⟨last, by simp, by rw [hempty]; rfl⟩
    · obtain ⟨o, ho, hbound⟩ := ih hempty
      rw [if_neg (by simpa using hempty)]
      rcases hc.eq_or_eq (boundOf choose os) last.value with hkeep | htake
      · exact ⟨o, by simp [ho], by rw [hkeep, hbound]⟩
      · exact ⟨last, by simp, htake.symm⟩

theorem boundRank_cons [Std.Associative op] (o : Outcome) (os : List Outcome) :
    boundRank op (o :: os) = o.value.rank?.merge op (boundRank op os) := by
  have happend : boundRank op (o :: os) = (boundRank op [o]).merge op (boundRank op os) :=
    boundRank_append [o] os
  have hsingle : boundRank op [o] = o.value.rank? := Option.merge_none_left
  rw [happend, hsingle]

/-- The rank of a bound is what a choice among the ranks leaves of them all. -/
theorem boundRank_eq [Std.Associative op] {best? : List Int → Option Int}
    (hnil : best? [] = none)
    (hcons : ∀ a as, best? (a :: as) = some ((best? as).elim a (op a))) (os : List Outcome) :
    boundRank op os = best? (ranks os) := by
  induction os with
  | nil => exact hnil.symm
  | cons o os ih =>
    rw [boundRank_cons, ih]
    cases ho : o.value.rank? with
    | none =>
      have hranks : ranks (o :: os) = ranks os := List.filterMap_cons_none ho
      rw [hranks, Option.merge_none_left]
    | some a =>
      have hranks : ranks (o :: os) = a :: ranks os := List.filterMap_cons_some ho
      rw [hranks, hcons]
      cases best? (ranks os) with
      | none => rfl
      | some b => rfl

theorem boundRank_max (os : List Outcome) : boundRank max os = (ranks os).max? :=
  boundRank_eq rfl (fun _ _ => List.max?_cons) os

theorem boundRank_min (os : List Outcome) : boundRank min os = (ranks os).min? :=
  boundRank_eq rfl (fun _ _ => List.min?_cons) os

theorem isNaN_boundOf_iff (hc : Binary64.Choice choose op before) {os : List Outcome}
    (hos : os ≠ []) (hrank : boundRank op os = none ↔ ranks os = []) :
    (boundOf choose os).isNaN = true ↔ ∀ o ∈ os, o.value.isNaN = true := by
  rw [← Binary64.rank?_eq_none_iff, rank?_boundOf hc hos, hrank, ranks_eq_nil_iff]

/-- A bound is an extreme as soon as its rank is one. -/
theorem isExtreme_boundOf (hc : Binary64.Choice choose op before) {os : List Outcome}
    (hos : os ≠ []) (hrank : boundRank op os = none ↔ ranks os = [])
    (hbefore : ∀ {y bound : Binary64} {a b : Int}, y.rank? = some a → bound.rank? = some b →
      a ∈ ranks os → boundRank op os = some b → before y bound = true) :
    IsExtreme before (os.map (·.value)) (boundOf choose os) where
  mem := List.mem_map.2 (boundOf_mem hc hos)
  isNaN_iff := by
    rw [isNaN_boundOf_iff hc hos hrank, List.forall_mem_map]
  before_of_mem := by
    intro y hy hnan
    obtain ⟨o, ho, rfl⟩ := List.mem_map.1 hy
    obtain ⟨a, ha⟩ := Binary64.isNaN_eq_false_iff.1 hnan
    have hmem : a ∈ ranks os := mem_ranks.2 ⟨o, ho, ha⟩
    obtain ⟨b, hb⟩ : ∃ b, boundRank op os = some b := by
      rw [← Option.ne_none_iff_exists', Ne, hrank]
      exact List.ne_nil_of_mem hmem
    refine hbefore ha ?_ hmem hb
    rw [rank?_boundOf hc hos, hb]

end Rank

theorem isExtreme_greatest {os : List Outcome} (hos : os ≠ []) :
    IsExtreme (fun x y => x.le y) (os.map (·.value)) (boundOf .greater os) := by
  apply isExtreme_boundOf Binary64.choice_greater hos
  · rw [boundRank_max, List.max?_eq_none_iff]
  · intro y bound a b ha hb hmem hbest
    rw [boundRank_max] at hbest
    obtain ⟨-, hle⟩ := List.max?_eq_some_iff.1 hbest
    exact Binary64.le_eq_true_iff.2 ⟨a, b, ha, hb, hle a hmem⟩

theorem isExtreme_least {os : List Outcome} (hos : os ≠ []) :
    IsExtreme (fun x y => y.le x) (os.map (·.value)) (boundOf .lesser os) := by
  apply isExtreme_boundOf Binary64.choice_lesser hos
  · rw [boundRank_min, List.min?_eq_none_iff]
  · intro y bound a b ha hb hmem hbest
    rw [boundRank_min] at hbest
    obtain ⟨-, hle⟩ := List.min?_eq_some_iff.1 hbest
    exact Binary64.le_eq_true_iff.2 ⟨b, a, hb, ha, hle a hmem⟩

end Totals

end ScaleFactor
