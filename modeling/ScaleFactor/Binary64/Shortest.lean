import ScaleFactor.Binary64.Rounding

/-!
# Shortest decimals

A number is written with the fewest decimal digits that read back as the same number; of several
such decimals the one nearest to the number is taken, and of two equally near ones the even one.

The reals that round to a magnitude form an interval between the midpoints to its neighbours,
whose ends belong to it when the place is even. A decimal of `n` digits is a multiple of one power
of ten, so only the two multiples next to the value have to be tried, for `n = 1, 2, …, 17`.
`Layout` says how the digits are put on paper.
-/

namespace ScaleFactor.Binary64

/-- The decimal exponent of the leading digit of the magnitude at a place other than `0`. -/
def leadingExponent (p : Nat) : Int :=
  let places := 400
  ((Nat.toDigits 10 (units p * Nat.pow 10 places / one)).length : Int) - 1 - (places : Nat)

/-- The multiple of `10 ^ k` nearest to the magnitude at place `p`, as long as it rounds to that
magnitude. Everything is counted in half units over `10 ^ -k`, which makes it whole. -/
def nearestMultiple? (p : Nat) (k : Int) : Option Nat :=
  let scale := Nat.pow 10 (-k).toNat
  let step := Nat.pow 10 k.toNat * (2 * one)
  let value := 2 * units p * scale
  let low := (units (p - 1) + units p) * scale
  let high := (units p + units (p + 1)) * scale
  let roundsBack (c : Nat) : Bool :=
    if p % 2 = 0 then low ≤ c * step && c * step ≤ high
    else low < c * step && c * step < high
  let c := value / step
  match roundsBack c, roundsBack (c + 1) with
  | true, true =>
    if 2 * value < (2 * c + 1) * step then some c
    else if (2 * c + 1) * step < 2 * value then some (c + 1)
    else some (c + c % 2)
  | true, false => some c
  | false, true => some (c + 1)
  | false, false => none

/-- The shortest decimal of the magnitude at a place other than `0`: its digits, without zeros at
the end, and the exponent of the first one. -/
def shortest (p : Nat) : List Char × Int :=
  let e := leadingExponent p
  let candidates := (List.range 17).filterMap fun (i : Nat) =>
    (nearestMultiple? p (e - i)).map fun c => (c, e - i)
  let (c, k) := candidates.headD (0, 0)
  let digits := Nat.toDigits 10 c
  ((digits.reverse.dropWhile (· == '0')).reverse, k + digits.length - 1)

/-- How a decimal is put on paper. -/
structure Layout where
  /-- The least exponent of the first digit for which the number is written without exponent. -/
  lowest : Int
  /-- The greatest exponent of the first digit for which the number is written without exponent. -/
  highest : Int

/-- Writes a decimal: positionally with at least one digit on both sides of the point, or with an
exponent that always has a sign and no zeros in front. -/
def Layout.decimal (f : Layout) (digits : List Char) (e : Int) : List Char :=
  if f.lowest ≤ e ∧ e ≤ f.highest then
    if e < 0 then '0' :: '.' :: List.replicate (-e - 1).toNat '0' ++ digits
    else
      let n := e.toNat + 1
      let fraction := digits.drop n
      digits.take n ++ List.replicate (n - digits.length) '0' ++
        '.' :: (if fraction = [] then ['0'] else fraction)
  else
    let fraction := digits.drop 1
    digits.take 1 ++ (if fraction = [] then [] else '.' :: fraction) ++
      'e' :: (if e < 0 then '-' else '+') :: Nat.toDigits 10 e.natAbs

/-- Writes a number. -/
def Layout.text (f : Layout) : Binary64 → List Char
  | nan => "NaN".toList
  | number s p =>
    let magnitude :=
      if p.val = top then "inf".toList
      else if p.val = 0 then "0.0".toList
      else
        let (digits, e) := shortest p
        f.decimal digits e
    if s then '-' :: magnitude else magnitude

end ScaleFactor.Binary64
