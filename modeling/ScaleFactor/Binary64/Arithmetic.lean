import ScaleFactor.Binary64.Rounding

/-!
# Arithmetic on binary64 numbers

Sums, products and quotients are exact results rounded once; whole numbers come in by the same
rounding (`ofNat`, `ofInt`) and go out by cutting the fraction off (`truncate`), clamped to the
64-bit range.
-/

namespace ScaleFactor.Binary64

/-- The exact value of a finite number in least magnitudes, with its sign. -/
def signedUnits (negative : Bool) (place : Nat) : Int :=
  if negative then -(units place : Int) else units place

/-- The sum. Opposite infinities have none; a sum of zero is negative only when both parts are
negative. -/
def add : Binary64 → Binary64 → Binary64
  | nan, _ => nan
  | _, nan => nan
  | number s p, number t q =>
    if p.val = top then
      if q.val = top ∧ s ≠ t then nan else number s p
    else if q.val = top then number t q
    else
      let sum := signedUnits s p + signedUnits t q
      if sum = 0 then signedZero (s && t) else round (sum < 0) sum.natAbs 1

instance : Add Binary64 := ⟨add⟩

/-- The product, negative when exactly one side is. -/
def mul : Binary64 → Binary64 → Binary64
  | nan, _ => nan
  | _, nan => nan
  | number s p, number t q =>
    if p.val = top ∨ q.val = top then
      if p.val = 0 ∨ q.val = 0 then nan else infinite (s != t)
    else round (s != t) (units p * units q) one

instance : Mul Binary64 := ⟨mul⟩

/-- The quotient, negative when exactly one side is. -/
def div : Binary64 → Binary64 → Binary64
  | nan, _ => nan
  | _, nan => nan
  | number s p, number t q =>
    if p.val = top then
      if q.val = top then nan else infinite (s != t)
    else if q.val = top then signedZero (s != t)
    else if q.val = 0 then
      if p.val = 0 then nan else infinite (s != t)
    else round (s != t) (units p * one) (units q)

instance : Div Binary64 := ⟨div⟩

/-- The number nearest to a natural number. -/
def ofNat (n : Nat) : Binary64 := round false (n * one) 1

theorem ofNat_zero : ofNat 0 = zero := by
  have hplace : nearestPlace 0 1 = 0 := by
    have := nearestPlace_units (Nat.zero_le top)
    rwa [units_of_lt (Nat.two_pow_pos _)] at this
  rw [ofNat, Nat.zero_mul, round, zero, signedZero]
  refine congrArg (number false) (Fin.ext ?_)
  show nearestPlace 0 1 = 0
  exact hplace

/-- The number nearest to a whole number. -/
def ofInt (n : Int) : Binary64 := round (n < 0) (n.natAbs * one) 1

/-- The least whole number that 64 bits hold. -/
def wordMin : Int := -9223372036854775808

/-- The greatest whole number that 64 bits hold. -/
def wordMax : Int := 9223372036854775807

/-- The whole number left when the fraction is cut off, kept between `wordMin` and `wordMax`; a
NaN gives `0`. -/
def truncate : Binary64 → Int
  | nan => 0
  | number s p =>
    let whole : Int := (units p / one : Nat)
    if s then max (-whole) wordMin else min whole wordMax

theorem truncate_bounds (x : Binary64) : wordMin ≤ x.truncate ∧ x.truncate ≤ wordMax := by
  cases x with
  | nan => decide
  | number s p =>
    simp only [truncate, wordMin, wordMax]
    generalize units p / one = whole
    split <;> omega

end ScaleFactor.Binary64
