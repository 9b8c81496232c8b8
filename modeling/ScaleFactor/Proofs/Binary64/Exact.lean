import ScaleFactor.Proofs.Binary64.Whole

/-!
# Results that need no rounding

Where the exact result of an operation is a magnitude, rounding leaves it alone: a sum or a quotient
is then the number with just that value (`add_eq_number`, `div_eq_number`). So adding to zero and
dividing by one change nothing, whatever the number is, from the least magnitude to infinity, but for
the sign of a negative zero, which is lost in a sum with the positive one.
-/

namespace ScaleFactor.Binary64

/-! ## Rounding of quotients -/

theorem nearestWhole_mul_right (n d : Nat) {k : Nat} (hk : 0 < k) :
    nearestWhole (n * k) (d * k) = nearestWhole n d := by
  have hdouble : 2 * (n % d * k) = 2 * (n % d) * k := (Nat.mul_assoc ..).symm
  unfold nearestWhole
  rw [Nat.mul_div_mul_right _ _ hk, Nat.mul_mod_mul_right, hdouble]
  simp only [Nat.mul_lt_mul_right hk]

/-- A quotient is rounded alike in every way in which it can be written. -/
theorem nearestPlace_mul_right (n d : Nat) {k : Nat} (hk : 0 < k) :
    nearestPlace (n * k) (d * k) = nearestPlace n d := by
  have hdoublings : doublings (n * k) (d * k) = doublings n d := by
    rw [doublings, doublings, Nat.mul_div_mul_right _ _ hk]
  unfold nearestPlace
  rw [hdoublings, Nat.mul_right_comm, nearestWhole_mul_right _ _ hk]

/-- A quotient that is a magnitude is that magnitude. -/
theorem round_units_mul (negative : Bool) (p : Fin (top + 1)) {k : Nat} (hk : 0 < k) :
    round negative (units p * k) k = number negative p := by
  have hplace : nearestPlace (units p * k) k = p := by
    have hscaled := nearestPlace_mul_right (units p) 1 hk
    rw [Nat.one_mul] at hscaled
    rw [hscaled, nearestPlace_units (Nat.le_of_lt_succ p.isLt)]
  exact congrArg (number negative) (Fin.ext hplace)

theorem round_units (negative : Bool) (p : Fin (top + 1)) :
    round negative (units p) 1 = number negative p := by
  have hround := round_units_mul negative p Nat.one_pos
  rwa [Nat.mul_one] at hround

/-- A whole number up to `2 ^ 53` is a number of just that value. -/
theorem exists_ofNat_eq {n : Nat} (h : n ≤ exactLimit) :
    ∃ p : Fin (top + 1), p.val ≠ top ∧ units p = n * one ∧ ofNat n = number false p := by
  obtain ⟨p, hp, hunits⟩ := exists_units_eq h
  refine ⟨⟨p, Nat.lt_succ_of_lt hp⟩, hp.ne, hunits, ?_⟩
  rw [ofNat, ← hunits]
  exact round_units false ⟨p, Nat.lt_succ_of_lt hp⟩

/-! ## Exact sums and quotients -/

theorem units_pos {p : Nat} (h : p ≠ 0) : 0 < units p := by
  have hzero : units 0 = 0 := units_of_lt binade_pos
  rw [← hzero]
  exact units_lt_units (Nat.pos_of_ne_zero h)

section Finite

variable {s t u : Bool} {p q r : Fin (top + 1)} (hp : p.val ≠ top) (hq : q.val ≠ top)
include hp hq

/-- A sum of finite numbers whose exact value is a magnitude other than zero. -/
theorem add_eq_number (hr : r.val ≠ 0)
    (h : signedUnits s p + signedUnits t q = signedUnits u r) :
    number s p + number t q = number u r := by
  have hpos := units_pos hr
  have hne : signedUnits u r ≠ 0 := by
    unfold signedUnits
    split <;> omega
  have hsign : decide (signedUnits u r < 0) = u := by
    unfold signedUnits
    cases u <;> simp [hpos]
  have habs : (signedUnits u r).natAbs = units r := by
    unfold signedUnits
    split <;> omega
  show add (number s p) (number t q) = number u r
  simp only [add, if_neg hp, if_neg hq, h, if_neg hne, hsign, habs]
  exact round_units u r

/-- A quotient of finite numbers whose exact value is a magnitude. -/
theorem div_eq_number (hzero : q.val ≠ 0) (h : units p * one = units r * units q) :
    number s p / number t q = number (s != t) r := by
  show div (number s p) (number t q) = number (s != t) r
  simp only [div, if_neg hp, if_neg hq, if_neg hzero, h]
  exact round_units_mul _ r (units_pos hzero)

end Finite

/-! ## Zero and one -/

theorem number_of_val_eq_zero {s : Bool} {p : Fin (top + 1)} (h : p.val = 0) :
    number s p = signedZero s :=
  congrArg (number s) (Fin.ext h)

/-- Adding to zero changes nothing but the sign of a zero. -/
theorem dropZeroSign_zero_add (x : Binary64) : (zero + x).dropZeroSign = x.dropZeroSign := by
  cases x with
  | nan => rfl
  | number s p =>
    by_cases htop : p.val = top
    · have hsum : zero + number s p = number s p := by
        show add (number false 0) (number s p) = number s p
        have hne : (0 : Fin (top + 1)).val ≠ top := by decide
        simp only [add, if_neg hne, if_pos htop]
      rw [hsum]
    · by_cases hzero : p.val = 0
      · rw [number_of_val_eq_zero hzero]
        cases s <;> rfl
      · have hsum : zero + number s p = number s p := by
          refine add_eq_number (by decide) htop hzero ?_
          have hnothing : signedUnits false 0 = 0 := congrArg Int.ofNat (units_of_lt binade_pos)
          exact (congrArg (· + signedUnits s p) hnothing).trans (Int.zero_add _)
        rw [hsum]

/-- Dividing by one changes nothing. -/
theorem div_ofNat_one (x : Binary64) : x / ofNat 1 = x := by
  obtain ⟨q, hq, hunits, hone⟩ := exists_ofNat_eq (n := 1) (by decide)
  rw [Nat.one_mul] at hunits
  rw [hone]
  cases x with
  | nan => rfl
  | number s p =>
    by_cases htop : p.val = top
    · show div (number s p) (number false q) = number s p
      simp only [div, if_pos htop, if_neg hq, Bool.bne_false]
      exact congrArg (number s) (Fin.ext htop.symm)
    · have hzero : q.val ≠ 0 := by
        intro hzero
        rw [hzero, units_of_lt binade_pos] at hunits
        exact one_pos.ne hunits
      rw [div_eq_number htop hq hzero (by rw [hunits] : units p * one = units p * units q),
        Bool.bne_false]

end ScaleFactor.Binary64
