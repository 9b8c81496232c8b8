/-!
# Binary64 numbers

The numbers that rules hold and answers are made of. The magnitudes of binary64, from zero over
the subnormal and the normal ones to infinity, form one increasing list; a magnitude is named by
its **place** in that list, and a number is a sign with a place, or not a number at all. So two
numbers are the same constant of this type exactly when they have the same bits, all NaNs being
one.

* `units p` is the exact value of place `p`, counted in the least magnitude `2 ^ -1074`; the place
  of infinity gets the value `2 ^ 1024` that follows the largest finite one.
* `rank?` orders the numbers: a NaN has no rank and both zeros have rank `0`. The comparisons of
  rules (`lt`, `le`, `same`) are comparisons of ranks, so `units_lt_units` makes them comparisons
  of exact values.
-/

namespace ScaleFactor

namespace Binary64

/-- The number of bits kept after the leading one of a significand. -/
def fractionBits : Nat := 52

/-- The exponent of the least magnitude, `2 ^ -1074`. -/
def scaleBits : Nat := 1074

/-- The number of magnitudes from one power of two up to before the next. -/
def binade : Nat := Nat.pow 2 fractionBits

/-- The place of infinity, one more than the place of the largest finite magnitude. -/
def top : Nat := 2047 * binade

/-- How many least magnitudes one is. -/
def one : Nat := Nat.pow 2 scaleBits

/-- The exact value of place `p` in least magnitudes. Up to place `2 ^ 53` the magnitudes are one
unit apart; from there on the distance doubles every `2 ^ 52` places. -/
def units (p : Nat) : Nat :=
  if p < binade then p else (binade + p % binade) * Nat.pow 2 (p / binade - 1)

end Binary64

/-- A binary64 number: not a number, or a sign and the place of a magnitude. -/
inductive Binary64 where
  | nan
  | number (negative : Bool) (place : Fin (Binary64.top + 1))
  deriving DecidableEq, Repr

namespace Binary64

/-- Zero of the given sign. -/
def signedZero (negative : Bool) : Binary64 := number negative 0

/-- Positive zero. -/
def zero : Binary64 := signedZero false

instance : Inhabited Binary64 := ⟨zero⟩

/-- Infinity of the given sign. -/
def infinite (negative : Bool) : Binary64 := number negative ⟨top, Nat.lt_succ_self top⟩

def isNaN : Binary64 → Bool
  | nan => true
  | number .. => false

def isInfinite : Binary64 → Bool
  | nan => false
  | number _ p => p.val == top

/-- A zero of either sign. -/
def isZero : Binary64 → Bool
  | nan => false
  | number _ p => p.val == 0

/-- The opposite number. -/
def negate : Binary64 → Binary64
  | nan => nan
  | number s p => number (!s) p

/-- A zero loses its sign; every other number stays. -/
def dropZeroSign (x : Binary64) : Binary64 := if x.isZero then zero else x

/-- The bits of the number, of which a NaN has none that anybody may look at. -/
def bits? : Binary64 → Option Nat
  | nan => none
  | number s p => some ((if s then Nat.pow 2 63 else 0) + p.val)

/-! ### Order -/

/-- The rank of a number among the others, with one rank for both zeros; a NaN has none. -/
def rank? : Binary64 → Option Int
  | nan => none
  | number s p => some (if s then -(p.val : Int) else p.val)

/-- Whether both numbers have a rank and the ranks stand in relation `r`. -/
def related (r : Int → Int → Bool) (x y : Binary64) : Bool :=
  match x.rank?, y.rank? with
  | some a, some b => r a b
  | _, _ => false

/-- Less than; false as soon as one side is a NaN. -/
def lt : Binary64 → Binary64 → Bool := related (· < ·)

/-- Less than or the same; false as soon as one side is a NaN. -/
def le : Binary64 → Binary64 → Bool := related (· ≤ ·)

/-- Numerical equality: the two zeros are the same and a NaN is the same as nothing. -/
def same : Binary64 → Binary64 → Bool := related (· == ·)

/-- The greater of two numbers; a NaN yields to the other one, and of two zeros the first stays. -/
def greater (x y : Binary64) : Binary64 :=
  if x.isNaN then y else if x.lt y then y else x

/-- The lesser of two numbers; a NaN yields to the other one, and of two zeros the first stays. -/
def lesser (x y : Binary64) : Binary64 :=
  if x.isNaN then y else if y.lt x then y else x

theorem related_eq_true_iff {r : Int → Int → Bool} {x y : Binary64} :
    related r x y = true ↔ ∃ a b, x.rank? = some a ∧ y.rank? = some b ∧ r a b = true := by
  unfold related
  cases x.rank? <;> cases y.rank? <;> simp

theorem rank?_eq_none_iff {x : Binary64} : x.rank? = none ↔ x.isNaN = true := by
  cases x <;> simp [rank?, isNaN]

/-! ### Exact values -/

theorem binade_eq : binade = 4503599627370496 := rfl

theorem units_of_lt {p : Nat} (h : p < binade) : units p = p := by
  simp [units, h]

/-- The exact values increase from place to place. -/
theorem units_lt_units_succ (p : Nat) : units p < units (p + 1) := by
  unfold units
  by_cases hs : p + 1 < binade
  · rw [if_pos (by omega), if_pos hs]
    exact Nat.lt_succ_self p
  · rw [if_neg hs]
    by_cases hp : p < binade
    · have e : p + 1 = binade := by omega
      rw [if_pos hp, e, Nat.mod_self, Nat.div_self (by decide), Nat.sub_self]
      exact Nat.lt_of_lt_of_le hp (Nat.le_mul_of_pos_right _ Nat.one_pos)
    · rw [if_neg hp]
      have hk : 0 < Nat.pow 2 (p / binade - 1) := Nat.two_pow_pos _
      by_cases hc : p % binade + 1 = binade
      · have hd : (p + 1) / binade = p / binade + 1 := by simp only [binade_eq] at *; omega
        have hm : (p + 1) % binade = 0 := by simp only [binade_eq] at *; omega
        have h1 : p / binade + 1 - 1 = p / binade - 1 + 1 := by simp only [binade_eq] at *; omega
        have double : Nat.pow 2 (p / binade - 1 + 1) = 2 * Nat.pow 2 (p / binade - 1) :=
          Nat.pow_succ'
        rw [hd, hm, h1, double, ← Nat.mul_assoc]
        exact Nat.mul_lt_mul_of_pos_right (by omega) hk
      · have hd : (p + 1) / binade = p / binade := by simp only [binade_eq] at *; omega
        have hm : (p + 1) % binade = p % binade + 1 := by simp only [binade_eq] at *; omega
        rw [hd, hm]
        exact Nat.mul_lt_mul_of_pos_right (by omega) hk

/-- Places and exact values are in the same order. -/
theorem units_lt_units {p q : Nat} (h : p < q) : units p < units q := by
  induction q with
  | zero => omega
  | succ q ih =>
    rcases Nat.lt_or_eq_of_le (Nat.le_of_lt_succ h) with hq | rfl
    · exact Nat.lt_trans (ih hq) (units_lt_units_succ q)
    · exact units_lt_units_succ p

end Binary64

end ScaleFactor
