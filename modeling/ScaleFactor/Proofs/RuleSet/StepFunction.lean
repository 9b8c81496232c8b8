import ScaleFactor.Proofs.Binary64.Order
import ScaleFactor.Proofs.Changes
import ScaleFactor.Proofs.RuleSet.Answer

/-!
# Answers along increasing values

The condition of a rule holds from some value on, or up to some value, or between two values, or it
does not hold there. So along values in non-decreasing order its flag changes at most twice
(`Rule.changes_matched_le_two`). The outcome of a rule is known by its flag, and the answer of a rule
set by the outcomes of its rules: it changes where one of the flags does, which is at most twice for
every rule.

Values in non-decreasing order are a list with `le` between neighbours. As soon as there are two of
them, none is a NaN; the two zeros may follow each other either way.
-/

namespace ScaleFactor

/-! ## Flags of comparisons -/

namespace Binary64

variable {xs : List Binary64}

theorem pairwise_le_of_isChain (hxs : xs.IsChain fun x y => x.le y = true) :
    xs.Pairwise fun x y => x.le y = true := by
  have : Trans (fun x y : Binary64 => x.le y = true) (fun x y => x.le y = true)
      (fun x y => x.le y = true) := ⟨le_trans⟩
  exact List.isChain_iff_pairwise.1 hxs

/-- What a greater value keeps true stays true. -/
theorem pairwise_map_of_ascending (hxs : xs.IsChain fun x y => x.le y = true)
    {holds : Binary64 → Bool} (h : ∀ x y, x.le y = true → holds x = true → holds y = true) :
    (xs.map holds).Pairwise fun earlier later => earlier = true → later = true := by
  refine List.pairwise_map.2 ((pairwise_le_of_isChain hxs).imp ?_)
  intro x y hxy
  exact h x y hxy

theorem pairwise_map_of_descending (hxs : xs.IsChain fun x y => x.le y = true)
    {holds : Binary64 → Bool} (h : ∀ x y, x.le y = true → holds y = true → holds x = true) :
    (xs.map holds).Pairwise fun earlier later => later = true → earlier = true := by
  refine List.pairwise_map.2 ((pairwise_le_of_isChain hxs).imp ?_)
  intro x y hxy
  exact h x y hxy

/-- A range, also a reversed one or one with a NaN in it, is entered once and left once. -/
theorem changes_between_le_two (hxs : xs.IsChain fun x y => x.le y = true)
    (low high : Binary64) : changes (xs.map fun x => low.le x && x.le high) ≤ 2 := by
  have hlow : changes (xs.map fun x => low.le x) ≤ 1 :=
    changes_le_one_of_ascending (pairwise_map_of_ascending hxs fun _ _ hxy h => le_trans h hxy)
  have hhigh : changes (xs.map fun x => x.le high) ≤ 1 :=
    changes_le_one_of_descending (pairwise_map_of_descending hxs fun _ _ => le_trans)
  have hboth := changes_map_le_add (fun x => low.le x) (fun x => x.le high)
    (fun x => low.le x && x.le high) (fun x y hl hh => by simp only [hl, hh]) xs
  omega

end Binary64

/-! ## Flags of rules -/

/-- The condition has the shape that the operator compares with. There is none for an unknown
operator. -/
def Operator.fits : Operator → Condition → Bool
  | .less, .value _ => true
  | .greater, .value _ => true
  | .equal, .value _ => true
  | .notEqual, .value _ => true
  | .within, .range .. => true
  | _, _ => false

theorem Operator.isSome_holds? (op : Operator) (x : Binary64) (c : Condition) :
    (op.holds? x c).isSome = op.fits c := by
  cases op <;> cases c <;> rfl

namespace Rule

variable {r : Rule}

theorem matched_outcome (r : Rule) (x : Binary64) :
    (r.outcome x).matched = (r.operator.holds? x r.condition).getD false := by
  cases h : r.operator.holds? x r.condition with
  | none =>
    rw [outcome, h]
    rfl
  | some holds =>
    rw [outcome_of_holds? h]
    rfl

/-- The flag of an outcome tells the rest of it. -/
theorem outcome_eq_of_matched_eq (r : Rule) {x y : Binary64}
    (h : (r.outcome x).matched = (r.outcome y).matched) : r.outcome x = r.outcome y := by
  have hx := r.operator.isSome_holds? x r.condition
  have hy := r.operator.isSome_holds? y r.condition
  rw [matched_outcome, matched_outcome] at h
  have hholds : r.operator.holds? x r.condition = r.operator.holds? y r.condition := by
    cases hfits : r.operator.fits r.condition with
    | false =>
      rw [hfits, Option.isSome_eq_false_iff, Option.isNone_iff_eq_none] at hx hy
      rw [hx, hy]
    | true =>
      rw [hfits, Option.isSome_iff_exists] at hx hy
      obtain ⟨a, ha⟩ := hx
      obtain ⟨b, hb⟩ := hy
      rw [ha, hb] at h ⊢
      exact congrArg some h
  rw [outcome, outcome, hholds]

theorem changes_matched_of_not_fits (h : r.operator.fits r.condition = false)
    (xs : List Binary64) : changes (xs.map fun x => (r.outcome x).matched) = 0 := by
  refine changes_eq_zero (c := false) ?_
  intro flag hflag
  obtain ⟨x, -, rfl⟩ := List.mem_map.1 hflag
  have hnone := r.operator.isSome_holds? x r.condition
  rw [h, Option.isSome_eq_false_iff, Option.isNone_iff_eq_none] at hnone
  rw [matched_outcome, hnone]
  rfl

section Ascending

variable {xs : List Binary64} (hxs : xs.IsChain fun x y => x.le y = true)
include hxs

theorem pairwise_matched_of_less (hop : r.operator = .less) :
    (xs.map fun x => (r.outcome x).matched).Pairwise
      fun earlier later => later = true → earlier = true := by
  apply Binary64.pairwise_map_of_descending hxs
  intro x y hxy
  rw [matched_outcome, matched_outcome, hop]
  cases r.condition with
  | value c => exact Binary64.lt_of_le_of_lt hxy
  | range low high => exact id

theorem pairwise_matched_of_greater (hop : r.operator = .greater) :
    (xs.map fun x => (r.outcome x).matched).Pairwise
      fun earlier later => earlier = true → later = true := by
  apply Binary64.pairwise_map_of_ascending hxs
  intro x y hxy
  rw [matched_outcome, matched_outcome, hop]
  cases r.condition with
  | value c => exact fun h => Binary64.lt_of_lt_of_le h hxy
  | range low high => exact id

/-- A rule whose flag says that the value lies in a range, or that it does not. -/
theorem changes_matched_of_between (low high : Binary64) (flip : Bool → Bool)
    (h : ∀ x, (r.outcome x).matched = flip (low.le x && x.le high)) :
    changes (xs.map fun x => (r.outcome x).matched) ≤ 2 := by
  simp only [h]
  calc changes (xs.map fun x => flip (low.le x && x.le high))
      ≤ changes (xs.map fun x => low.le x && x.le high) :=
        changes_map_le _ _ (fun x y hxy => by rw [hxy]) xs
    _ ≤ 2 := Binary64.changes_between_le_two hxs low high

theorem changes_matched_le_two (r : Rule) :
    changes (xs.map fun x => (r.outcome x).matched) ≤ 2 := by
  have hmisfit : r.operator.fits r.condition = false →
      changes (xs.map fun x => (r.outcome x).matched) ≤ 2 := by
    intro h
    rw [changes_matched_of_not_fits h]
    exact Nat.zero_le 2
  cases hop : r.operator with
  | less => exact (changes_le_one_of_descending (pairwise_matched_of_less hxs hop)).trans one_le_two
  | greater =>
    exact (changes_le_one_of_ascending (pairwise_matched_of_greater hxs hop)).trans one_le_two
  | equal =>
    cases hc : r.condition with
    | value c =>
      -- the range from `c` to `c`
      refine changes_matched_of_between hxs c c id ?_
      intro x
      rw [matched_outcome, hop, hc]
      exact Binary64.same_eq_le_and_le x c
    | range low high => exact hmisfit (by rw [hop, hc]; rfl)
  | notEqual =>
    cases hc : r.condition with
    | value c =>
      refine changes_matched_of_between hxs c c not ?_
      intro x
      rw [matched_outcome, hop, hc]
      exact congrArg not (Binary64.same_eq_le_and_le x c)
    | range low high => exact hmisfit (by rw [hop, hc]; rfl)
  | within =>
    cases hc : r.condition with
    | value c => exact hmisfit (by rw [hop, hc]; rfl)
    | range low high =>
      refine changes_matched_of_between hxs low high id ?_
      intro x
      rw [matched_outcome, hop, hc]
      rfl
  | unknown mark => exact hmisfit (by rw [hop]; rfl)

end Ascending

end Rule

/-! ## Answers of rule sets -/

namespace RuleSet

/-- Values one after the other, each answered with the memo that the one before left. -/
theorem results_combineEach {memo : Memo} (hm : memo.Sound) (s : RuleSet) {c : Settings}
    (hc : c.strategy ≠ .random) (words : List UInt64) (xs : List Binary64) :
    (s.combineEach c memo words xs).map (·.answer.result) = xs.map (s.settledResult c) := by
  induction xs generalizing memo words with
  | nil => rfl
  | cons x xs ih =>
    have hnext := sound_memo_combine hm s x c words
    rw [combineEach, List.map_cons, List.map_cons, ih hnext, result_combine hm s x hc]

/-- The answer is made of the flags of the rules that can be read. -/
theorem settledResult_eq_of_flags (s : RuleSet) (c : Settings) {x y : Binary64}
    (h : s.readable.map (fun r => (r.outcome x).matched) =
      s.readable.map fun r => (r.outcome y).matched) :
    s.settledResult c x = s.settledResult c y := by
  have houtcomes : s.outcomes x = s.outcomes y := by
    refine List.map_congr_left fun r hr => ?_
    exact r.outcome_eq_of_matched_eq (List.map_inj_left.1 h r hr)
  simp only [settledResult, kept, houtcomes]

theorem length_readable_le (s : RuleSet) : s.readable.length ≤ s.size :=
  List.length_filterMap_le _ _

/-- **Along non-decreasing values a rule set is a step function with at most two steps for each
rule.** The flag of a `<` rule goes down once, that of a `>` rule goes up once, no flag changes more
than twice, and that of a rule with an unknown operator or a condition of the wrong shape does not
change at all. So under every strategy but the random one the answers, among them the missing ones
with their numbers of overlaps, change at most twice as often as there are rules, whatever the memo
knew at the start. -/
theorem combineEach_changes_le {xs : List Binary64} (hxs : xs.IsChain fun x y => x.le y = true) :
    (∀ r : Rule,
      let flags := xs.map fun x => (r.outcome x).matched
      (r.operator = .less → changes flags ≤ 1 ∧
        flags.Pairwise fun earlier later => later = true → earlier = true) ∧
      (r.operator = .greater → changes flags ≤ 1 ∧
        flags.Pairwise fun earlier later => earlier = true → later = true) ∧
      changes flags ≤ 2 ∧
      (r.operator.fits r.condition = false → changes flags = 0)) ∧
    ∀ (s : RuleSet) (c : Settings) (capacity : Nat) (requests : List Memo.Request)
      (words : List UInt64), c.strategy ≠ .random →
      changes ((s.combineEach c ((Memo.empty capacity).after requests) words xs).map
        (·.answer.result)) ≤ 2 * s.size := by
  refine ⟨?_, ?_⟩
  · intro r flags
    refine ⟨?_, ?_, Rule.changes_matched_le_two hxs r, fun h => Rule.changes_matched_of_not_fits h xs⟩
    · intro hop
      have hdown := Rule.pairwise_matched_of_less hxs hop
      exact ⟨changes_le_one_of_descending hdown, hdown⟩
    · intro hop
      have hup := Rule.pairwise_matched_of_greater hxs hop
      exact ⟨changes_le_one_of_ascending hup, hup⟩
  · intro s c capacity requests words hc
    rw [results_combineEach (Memo.sound_after_empty capacity requests) s hc]
    calc changes (xs.map (s.settledResult c))
        ≤ changes (xs.map fun x => s.readable.map fun r => (r.outcome x).matched) :=
          changes_map_le _ _ (fun x y h => s.settledResult_eq_of_flags c h) xs
      _ ≤ 2 * s.readable.length :=
          changes_map_map_le (fun (r : Rule) x => (r.outcome x).matched) xs s.readable
            fun r _ => Rule.changes_matched_le_two hxs r
      _ ≤ 2 * s.size := Nat.mul_le_mul_left 2 s.length_readable_le

theorem combineEach_changes_le_at_zeros :
    let xs : List Binary64 := [.infinite true, .signedZero true, .zero, .infinite false]
    (xs.IsChain fun x y => x.le y = true) ∧ (Strategy.sum ≠ .random) ∧
      changes ((combineEach ⟨["=0?1:2"]⟩ (.ofStrategy .sum) (Memo.empty 1) [] xs).map
        (·.answer.result)) ≤ 2 := by
  have hxs : [Binary64.infinite true, .signedZero true, .zero, .infinite false].IsChain
      fun x y => x.le y = true := by decide +kernel
  have hsum : Strategy.sum ≠ .random := by decide
  exact ⟨hxs, hsum, (combineEach_changes_le hxs).2 ⟨["=0?1:2"]⟩ (.ofStrategy .sum) 1 [] [] hsum⟩

example : changes ((combineEach ⟨["=0?1:2"]⟩ {} (Memo.empty 1) []
    [.infinite true, .zero, .infinite false]).map (·.answer.result)) = 2 := by decide +kernel

-- from one zero to the other is a change too
example : changes ((combineEach ⟨["<0?-0:0"]⟩ (.ofStrategy .maximum) (Memo.empty 1) []
    [.infinite true, .infinite false]).map (·.answer.result)) = 1 := by decide +kernel

end RuleSet

end ScaleFactor
