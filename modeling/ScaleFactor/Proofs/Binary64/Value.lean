import ScaleFactor.Proofs.Binary64.Exact

/-!
# Exact values

A number other than a NaN has an exact value, and the order of numbers is that of their exact values
(`le_eq_true_iff_value?`). Values are counted in least magnitudes, so that they are whole numbers, and
infinity has the value of the power of two that follows the greatest finite magnitude.
-/

namespace ScaleFactor.Binary64

/-- The exact value in least magnitudes; a NaN has none. -/
def value? : Binary64 → Option Int
  | nan => none
  | number s p => some (signedUnits s p)

theorem value?_eq_none_iff {x : Binary64} : x.value? = none ↔ x.isNaN = true := by
  cases x <;> simp [value?, isNaN]

theorem natAbs_signedUnits (s : Bool) (p : Nat) : (signedUnits s p).natAbs = units p := by
  unfold signedUnits
  split <;> omega

theorem natAbs_mul_one (m : Int) : (m * one).natAbs = m.natAbs * one := by
  rw [Int.natAbs_mul, Int.natAbs_natCast]

theorem mul_neg_iff_left {m : Int} {k : Nat} (hk : 0 < k) : m * k < 0 ↔ m < 0 := by
  rw [Int.mul_neg_iff]
  omega

theorem units_zero : units 0 = 0 := units_of_lt binade_pos

theorem units_le_units_iff {p q : Nat} : units p ≤ units q ↔ p ≤ q :=
  (strictMono_nat_of_lt_succ units_lt_units_succ).le_iff_le

/-- A place with the sign of the number. -/
def signedPlace (negative : Bool) (place : Nat) : Int := if negative then -(place : Int) else place

theorem signedUnits_le_iff {s t : Bool} {p q : Nat} :
    signedUnits s p ≤ signedUnits t q ↔ signedPlace s p ≤ signedPlace t q := by
  have hpq := units_le_units_iff (p := p) (q := q)
  have hqp := units_le_units_iff (p := q) (q := p)
  have hp := units_le_units_iff (p := p) (q := 0)
  have hq := units_le_units_iff (p := q) (q := 0)
  rw [units_zero] at hp hq
  unfold signedUnits signedPlace
  cases s <;> cases t <;> simp only [if_true, if_false, Bool.false_eq_true] <;> omega

/-- The order of numbers is the order of their exact values. -/
theorem le_eq_true_iff_value? {x y : Binary64} :
    x.le y = true ↔ ∃ a b, x.value? = some a ∧ y.value? = some b ∧ a ≤ b := by
  rw [le_eq_true_iff]
  cases x with
  | nan => simp [value?, rank?]
  | number s p =>
    cases y with
    | nan => simp [value?, rank?]
    | number t q =>
      simp [value?, rank?, signedUnits_le_iff, signedPlace]

end ScaleFactor.Binary64
