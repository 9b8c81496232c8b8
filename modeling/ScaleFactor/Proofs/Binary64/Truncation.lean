import ScaleFactor.Proofs.Binary64.Value

/-!
# Truncation

A number is cut down to a whole number of 64 bits. Between the ends of that range the fraction is
dropped, so that what is left is the whole number of greatest magnitude that does not exceed the number
in magnitude and has no opposite sign (`CutsOff`). From an end on, whole numbers stay there, and the two
ends differ: `2 ^ 63` is the first number that is too great, and `-2 ^ 63` the last one that is not too
small. `Truncates` puts this together, and it has one solution for every number (`truncates_iff`).

The computed result is followed from the exact value: the magnitude is divided, the sign is put back
and the ends are kept to (`truncate_of_value?`).
-/

namespace ScaleFactor.Binary64

/-- `n` has the greatest magnitude of all whole numbers that do not exceed `a` least magnitudes in
magnitude and have no opposite sign. -/
structure CutsOff (a n : Int) : Prop where
  magnitude_le : n.natAbs * one ≤ a.natAbs
  sign : 0 ≤ n * a
  greatest : ∀ m : Int, m.natAbs * one ≤ a.natAbs → 0 ≤ m * a → m.natAbs ≤ n.natAbs

/-- What is left of a number as a whole number of 64 bits. -/
structure Truncates (x : Binary64) (n : Int64) : Prop where
  of_isNaN : x.isNaN = true → n = 0
  of_high : ∀ a, x.value? = some a → 2 ^ 63 * one ≤ a → n = Int64.maxValue
  of_low : ∀ a, x.value? = some a → a ≤ -(2 ^ 63 * one) → n = Int64.minValue
  of_between : ∀ a, x.value? = some a → -(2 ^ 63 * one) < a → a < 2 ^ 63 * one → CutsOff a n.toInt

/-! ## The whole part -/

/-- A magnitude with the sign of `a`. -/
def withSign (a : Int) (magnitude : Nat) : Int := if a < 0 then -(magnitude : Int) else magnitude

/-- What is left of `a` least magnitudes when the fraction is dropped. -/
def wholePart (a : Int) : Int := withSign a (a.natAbs / one)

theorem natAbs_withSign (a : Int) (magnitude : Nat) : (withSign a magnitude).natAbs = magnitude := by
  unfold withSign
  split <;> omega

theorem wholePart_mono {a b : Int} (h : a ≤ b) : wholePart a ≤ wholePart b := by
  have hdiv {m n : Nat} (hmn : m ≤ n) : m / one ≤ n / one := Nat.div_le_div_right hmn
  have hneg (hb : b < 0) := hdiv (show b.natAbs ≤ a.natAbs by omega)
  have hpos (ha : 0 ≤ a) := hdiv (show a.natAbs ≤ b.natAbs by omega)
  unfold wholePart withSign
  generalize a.natAbs / one = m at *
  generalize b.natAbs / one = n at *
  split <;> split <;> omega

theorem wholePart_mul (n : Int) : wholePart (n * one) = n := by
  unfold wholePart withSign
  rw [natAbs_mul_one, Nat.mul_div_cancel _ one_pos]
  simp only [mul_neg_iff_left one_pos]
  split <;> omega

theorem cutsOff_wholePart (a : Int) : CutsOff a (wholePart a) := by
  refine ⟨?_, ?_, ?_⟩
  · rw [wholePart, natAbs_withSign]
    exact Nat.div_mul_le_self _ _
  · unfold wholePart withSign
    split
    · next h =>
      exact Int.mul_nonneg_of_nonpos_of_nonpos (Int.neg_nonpos_of_nonneg (Int.natCast_nonneg _)) h.le
    · next h => exact Int.mul_nonneg (Int.natCast_nonneg _) (Int.not_lt.1 h)
  · intro m hm _
    rw [wholePart, natAbs_withSign]
    exact (Nat.le_div_iff_mul_le one_pos).2 hm

/-- There is no other whole number that is left. -/
theorem CutsOff.eq_wholePart {a n : Int} (h : CutsOff a n) : n = wholePart a := by
  have hwhole := cutsOff_wholePart a
  have habs : n.natAbs = (wholePart a).natAbs :=
    Nat.le_antisymm (hwhole.greatest n h.magnitude_le h.sign)
      (h.greatest _ hwhole.magnitude_le hwhole.sign)
  rw [wholePart, natAbs_withSign] at habs
  have hsign := h.sign
  unfold wholePart withSign
  rw [← habs]
  split
  · next hneg =>
    have hn : n ≤ 0 := by
      by_contra hn
      exact absurd hsign (Int.not_le.2 (Int.mul_neg_of_pos_of_neg (Int.not_le.1 hn) hneg))
    omega
  · next hneg =>
    rcases Int.lt_or_eq_of_le (Int.not_lt.1 hneg) with hpos | rfl
    · have hn : 0 ≤ n := by
        by_contra hn
        exact absurd hsign (Int.not_le.2 (Int.mul_neg_of_neg_of_pos (Int.not_le.1 hn) hpos))
      omega
    · rw [Int.natAbs_zero, Nat.zero_div] at habs
      omega

/-! ## The ends of the range -/

theorem truncate_of_value? {x : Binary64} {a : Int} (h : x.value? = some a) :
    x.truncate = max wordMin (min (wholePart a) wordMax) := by
  cases x with
  | nan => cases h
  | number s p =>
    obtain rfl : signedUnits s p = a := Option.some.inj h
    have habs := natAbs_signedUnits s p
    have hzero : signedUnits s p = 0 → units p / one = 0 := by
      intro hzero
      rw [hzero, Int.natAbs_zero] at habs
      rw [← habs, Nat.zero_div]
    unfold wholePart withSign
    simp only [habs, truncate, wordMin, wordMax]
    generalize units p / one = whole at *
    unfold signedUnits at *
    cases s <;> simp only [if_true, if_false, Bool.false_eq_true] at * <;> omega

/-- Magnitudes below `2 ^ 63` are in the range, and so is what is left of them. -/
theorem wholePart_between {a : Int} (hlow : -(2 ^ 63 * one) < a) (hhigh : a < 2 ^ 63 * one) :
    -(2 ^ 63) < wholePart a ∧ wholePart a < 2 ^ 63 := by
  have habs : a.natAbs < one * 2 ^ 63 := by
    generalize one = d at *
    omega
  have hdiv : a.natAbs / one < 2 ^ 63 := Nat.div_lt_of_lt_mul habs
  have hwhole := natAbs_withSign a (a.natAbs / one)
  unfold wholePart
  omega

theorem le_wholePart {a : Int} (h : 2 ^ 63 * one ≤ a) : 2 ^ 63 ≤ wholePart a := by
  have hmono := wholePart_mono h
  rwa [wholePart_mul] at hmono

theorem wholePart_le {a : Int} (h : a ≤ -(2 ^ 63 * one)) : wholePart a ≤ -(2 ^ 63) := by
  rw [← Int.neg_mul] at h
  have hmono := wholePart_mono h
  rwa [wholePart_mul] at hmono

theorem toInt_ofInt_truncate (x : Binary64) : (Int64.ofInt x.truncate).toInt = x.truncate := by
  obtain ⟨hlow, hhigh⟩ := truncate_bounds x
  unfold wordMin at hlow
  unfold wordMax at hhigh
  exact Int64.toInt_ofInt_of_le (by omega) (by omega)

section Ends

variable {x : Binary64} {a : Int} (h : x.value? = some a)
include h

theorem truncate_of_high (hhigh : 2 ^ 63 * one ≤ a) : x.truncate = Int64.maxValue.toInt := by
  have hwhole := le_wholePart hhigh
  rw [truncate_of_value? h, Int64.toInt_maxValue, wordMin, wordMax]
  omega

theorem truncate_of_low (hlow : a ≤ -(2 ^ 63 * one)) : x.truncate = Int64.minValue.toInt := by
  have hwhole := wholePart_le hlow
  rw [truncate_of_value? h, Int64.toInt_minValue, wordMin, wordMax]
  omega

theorem truncate_of_between (hlow : -(2 ^ 63 * one) < a) (hhigh : a < 2 ^ 63 * one) :
    x.truncate = wholePart a := by
  have hwhole := wholePart_between hlow hhigh
  rw [truncate_of_value? h, wordMin, wordMax]
  omega

end Ends

/-! ## What is left of a number -/

theorem truncates_truncate (x : Binary64) : Truncates x (.ofInt x.truncate) := by
  have hword := toInt_ofInt_truncate x
  refine ⟨?_, ?_, ?_, ?_⟩
  · intro hnan
    cases x with
    | nan => rfl
    | number s p => cases hnan
  · intro a ha hhigh
    rw [← Int64.toInt_inj, hword, truncate_of_high ha hhigh]
  · intro a ha hlow
    rw [← Int64.toInt_inj, hword, truncate_of_low ha hlow]
  · intro a ha hlow hhigh
    rw [hword, truncate_of_between ha hlow hhigh]
    exact cutsOff_wholePart a

/-- A whole number is left of a number exactly if it is the one that truncation computes. -/
theorem truncates_iff {x : Binary64} {n : Int64} : Truncates x n ↔ n = .ofInt x.truncate := by
  refine ⟨?_, fun heq => heq ▸ truncates_truncate x⟩
  intro h
  have hx := truncates_truncate x
  cases hvalue : x.value? with
  | none =>
    have hnan := value?_eq_none_iff.1 hvalue
    rw [h.of_isNaN hnan, hx.of_isNaN hnan]
  | some a =>
    rcases le_or_gt (2 ^ 63 * one : Int) a with hhigh | hhigh
    · rw [h.of_high a hvalue hhigh, hx.of_high a hvalue hhigh]
    rcases le_or_gt a (-(2 ^ 63 * one) : Int) with hlow | hlow
    · rw [h.of_low a hvalue hlow, hx.of_low a hvalue hlow]
    rw [← Int64.toInt_inj, (h.of_between a hvalue hlow hhigh).eq_wholePart,
      (hx.of_between a hvalue hlow hhigh).eq_wholePart]

theorem Truncates.toInt_eq {x : Binary64} {n : Int64} (h : Truncates x n) {a : Int}
    (ha : x.value? = some a) : n.toInt = max wordMin (min (wholePart a) wordMax) := by
  rw [truncates_iff.1 h, toInt_ofInt_truncate, truncate_of_value? ha]

/-- Of a greater number no less is left. -/
theorem Truncates.mono {x y : Binary64} {n m : Int64} (hx : Truncates x n) (hy : Truncates y m)
    (h : x.le y = true) : n ≤ m := by
  obtain ⟨a, b, ha, hb, hab⟩ := le_eq_true_iff_value?.1 h
  rw [Int64.le_iff_toInt_le, hx.toInt_eq ha, hy.toInt_eq hb]
  exact max_le_max_left _ (min_le_min_right _ (wholePart_mono hab))

section Bounds

variable {x : Binary64} {n : Int64} (h : Truncates x n) {a : Int} (ha : x.value? = some a)
include h ha

theorem Truncates.mul_one_le (hpos : 0 ≤ a) : n.toInt * one ≤ a := by
  have hn := h.toInt_eq ha
  have hwhole : 0 ≤ wholePart a := by
    have := wholePart_mono hpos
    rwa [← Int.zero_mul one, wholePart_mul] at this
  have hle : wholePart a * one ≤ a := by
    have := (cutsOff_wholePart a).magnitude_le
    zify at this
    rwa [abs_of_nonneg hwhole, abs_of_nonneg hpos] at this
  unfold wordMin wordMax at hn
  exact (Int.mul_le_mul_of_nonneg_right (by omega) (Int.natCast_nonneg one)).trans hle

theorem Truncates.le_mul_one (hneg : a ≤ 0) : a ≤ n.toInt * one := by
  have hn := h.toInt_eq ha
  have hwhole : wholePart a ≤ 0 := by
    have := wholePart_mono hneg
    rwa [← Int.zero_mul one, wholePart_mul] at this
  have hle : a ≤ wholePart a * one := by
    have := (cutsOff_wholePart a).magnitude_le
    zify at this
    rw [abs_of_nonpos hwhole, abs_of_nonpos hneg] at this
    linarith
  unfold wordMin wordMax at hn
  exact hle.trans (Int.mul_le_mul_of_nonneg_right (by omega) (Int.natCast_nonneg one))

/-- A whole number in the range is left as it is. -/
theorem Truncates.eq_of_whole {m : Int64} (hm : a = m.toInt * one) : n = m := by
  have hlow := Int64.le_toInt m
  have hhigh := Int64.toInt_lt m
  rw [← Int64.toInt_inj, h.toInt_eq ha, hm, wholePart_mul, wordMin, wordMax]
  omega

end Bounds

end ScaleFactor.Binary64
