import ScaleFactor.Binary64.Rounding

/-!
# Decimal numerals

A numeral is a whole coefficient times a power of ten, written as digits with at most one point
and an optional exponent:

    digits [. digits] [(e | E) [+ | -] digits]      with at least one digit before the exponent

`Numeral.read?` reads the text without its sign and `Numeral.round` gives the nearest binary64
number. `Binary64.ofText?` reads a number of either sign, where the words for infinity and for
not-a-number count too; there a numeral beyond the largest finite number rounds to infinity.
-/

namespace ScaleFactor

/-- The value `coefficient * 10 ^ exponent`. -/
structure Numeral where
  coefficient : Nat
  exponent : Int
  deriving DecidableEq, Repr

namespace Numeral

/-- The number that a list of decimal digits writes. -/
def ofDigits (digits : List Char) : Nat :=
  digits.foldl (fun n c => 10 * n + (c.toNat - '0'.toNat)) 0

/-- A number of decimal digits, at least one and nothing else. -/
def digits? (cs : List Char) : Option Nat :=
  if cs ≠ [] ∧ cs.all Char.isDigit then some (ofDigits cs) else none

/-- The digits after the exponent sign, which may have a sign of their own. -/
def signedDigits? : List Char → Option Int
  | '+' :: cs => (digits? cs).map Int.ofNat
  | '-' :: cs => (digits? cs).map fun n => -Int.ofNat n
  | cs => (digits? cs).map Int.ofNat

/-- What may follow the coefficient: nothing, or an exponent. -/
def exponent? : List Char → Option Int
  | [] => some 0
  | c :: cs => if c = 'e' ∨ c = 'E' then signedDigits? cs else none

/-- The digits after a point that stands at the head, and what follows them. -/
def decimals : List Char → List Char × List Char
  | '.' :: cs => (cs.takeWhile Char.isDigit, cs.dropWhile Char.isDigit)
  | cs => ([], cs)

/-- Reads an unsigned numeral, the whole text of it. -/
def read? (cs : List Char) : Option Numeral :=
  let whole := cs.takeWhile Char.isDigit
  let (part, rest) := decimals (cs.dropWhile Char.isDigit)
  if whole ++ part = [] then none
  else (exponent? rest).map fun e => ⟨ofDigits (whole ++ part), e - part.length⟩

/-- The number of the given sign nearest to the numeral. Powers of ten that would leave the range
whatever the coefficient are not computed: `10 ^ 309` is beyond every finite number, and a
coefficient below `2 ^ (b + 1)` over `10 ^ k > 2 ^ (3 * k)` is less than half the least magnitude
once `3 * k` exceeds `b + 1076`. -/
def round (negative : Bool) (x : Numeral) : Binary64 :=
  if x.coefficient = 0 then .signedZero negative
  else match x.exponent with
  | .ofNat k =>
    if 309 ≤ k then .infinite negative
    else .round negative (x.coefficient * Nat.pow 10 k * Binary64.one) 1
  | .negSucc j =>
    let k := j + 1
    if x.coefficient.log2 + 1076 < 3 * k then .signedZero negative
    else .round negative (x.coefficient * Binary64.one) (Nat.pow 10 k)

end Numeral

namespace Binary64

/-- The lower-case words that stand for infinity. -/
def infinityWords : List (List Char) :=
  [['i', 'n', 'f'], ['i', 'n', 'f', 'i', 'n', 'i', 't', 'y']]

/-- A word, in letters of any case, stands for infinity. -/
def isInfinityWord (cs : List Char) : Bool := infinityWords.contains (cs.map Char.toLower)

/-- The lower-case word that stands for not-a-number. -/
def nanWord : List Char := ['n', 'a', 'n']

/-- Takes one sign off the head, telling whether it was a minus. -/
def splitSign : List Char → Bool × List Char
  | '+' :: cs => (false, cs)
  | '-' :: cs => (true, cs)
  | cs => (false, cs)

/-- Reads a number: an optional sign, then a word in letters of any case or a numeral. -/
def ofText? (cs : List Char) : Option Binary64 :=
  let (negative, body) := splitSign cs
  if isInfinityWord body then some (infinite negative)
  else if body.map Char.toLower = nanWord then some nan
  else (Numeral.read? body).map (Numeral.round negative)

end Binary64

end ScaleFactor
