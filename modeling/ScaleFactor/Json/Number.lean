import ScaleFactor.Json.Fault
import ScaleFactor.Binary64.Arithmetic

/-!
# Numbers in JSON text

A number has no place in any text of the library, but a reader that finds one names it in its
message, so numbers are read with the precision that the messages show: whole numbers as long as
64 bits hold them, and else a significand of at most 64 bits that is scaled by a power of ten with
an ordinary multiplication or division. `skipNumber` only checks the form of a number.
-/

namespace ScaleFactor.Json

/-- The value of a decimal digit. -/
def digitValue (c : Char) : Nat := c.toNat - '0'.toNat

/-- Whether a text goes on with a digit. -/
def startsWithDigit : List Char → Bool
  | c :: _ => c.isDigit
  | [] => false

/-- Takes digits as long as the number they write, with `n` before them, fits 64 bits; tells the
number and how many digits were taken. -/
def takeSignificand (n : Nat) : List Char → Nat × Nat × List Char
  | [] => (n, 0, [])
  | c :: cs =>
    if c.isDigit && 10 * n + digitValue c < Nat.pow 2 64 then
      let (m, k, rest) := takeSignificand (10 * n + digitValue c) cs
      (m, k + 1, rest)
    else (n, 0, c :: cs)

/-- Takes all digits of an exponent, with `n` before them. It stops behind the digit with which
the exponent leaves 31 bits, and then there is none. -/
def takeExponent (n : Nat) : List Char → Option Nat × List Char
  | [] => (some n, [])
  | c :: cs =>
    if c.isDigit then
      if 10 * n + digitValue c < Nat.pow 2 31 then takeExponent (10 * n + digitValue c) cs
      else (none, cs)
    else (some n, c :: cs)

/-- The greatest power of ten by which a number is scaled at once. -/
def greatestPower : Nat := 308

/-- Divides by `10 ^ k`, by steps if need be. -/
def scaleDown (x : Binary64) (k : Nat) : Binary64 :=
  if k ≤ greatestPower then x / .ofNat (Nat.pow 10 k)
  else if x.isZero then x
  else scaleDown (x / .ofNat (Nat.pow 10 greatestPower)) (k - greatestPower)
termination_by k
decreasing_by simp [greatestPower] at *; omega

/-- The significand times a power of ten, unless that is infinite. -/
def scaled? (significand : Nat) : Int → Option Binary64
  | .ofNat k =>
    let x := Binary64.ofNat significand
    if k ≤ greatestPower then
      let y := x * .ofNat (Nat.pow 10 k)
      if y.isInfinite then none else some y
    else if x.isZero then some x else none
  | .negSucc j => some (scaleDown (.ofNat significand) (j + 1))

/-- A floating-point number of the given sign. -/
def signedFloat (negative : Bool) (x : Binary64) : Found := .float (if negative then x.negate else x)

/-- A whole number without point and exponent. Negative zero and what is less than `-2 ^ 63` are
floating-point numbers. -/
def wholeNumber (negative : Bool) (n : Nat) : Found :=
  if !negative then .integer n
  else if 0 < n ∧ n ≤ Nat.pow 2 63 then .integer (-(n : Int))
  else signedFloat true (.ofNat n)

/-- The number `significand * 10 ^ e`, in front of `rest`. -/
def scaledNumber (negative : Bool) (significand : Nat) (e : Int) (rest : List Char) :
    Reading Found :=
  match scaled? significand e with
  | some x => .ok (signedFloat negative x, rest)
  | none => .error (.before .numberOutOfRange rest)

/-- Takes the sign off an exponent, telling whether it is a minus. -/
def exponentSign : List Char → Bool × List Char
  | '+' :: cs => (false, cs)
  | '-' :: cs => (true, cs)
  | cs => (false, cs)

/-- Reads an exponent behind its letter; `e` is the exponent so far. -/
def readExponent (negative : Bool) (significand : Nat) (e : Int) (cs : List Char) :
    Reading Found :=
  let (down, cs) := exponentSign cs
  match cs with
  | [] => .error (.before .endInValue [])
  | c :: cs =>
    if !c.isDigit then .error (.within .invalidNumber (c :: cs))
    else match takeExponent (digitValue c) cs with
    | (some n, rest) => scaledNumber negative significand (if down then e - n else e + n) rest
    | (none, rest) =>
      if significand ≠ 0 && !down then .error (.before .numberOutOfRange rest)
      else .ok (signedFloat negative .zero, rest.dropWhile Char.isDigit)

/-- What may follow the digits of a floating-point number. -/
def readScale (negative : Bool) (significand : Nat) (e : Int) : List Char → Reading Found
  | 'e' :: cs => readExponent negative significand e cs
  | 'E' :: cs => readExponent negative significand e cs
  | cs => scaledNumber negative significand e cs

/-- Reads the digits behind the point, of which there must be one; those that the significand
cannot take in are dropped. -/
def readFraction (negative : Bool) (significand : Nat) (e : Int) (cs : List Char) :
    Reading Found :=
  if startsWithDigit cs then
    let (n, k, rest) := takeSignificand significand cs
    readScale negative n (e - k) (rest.dropWhile Char.isDigit)
  else if cs = [] then .error (.before .endInValue [])
  else .error (.within .invalidNumber cs)

/-- What may follow the digits before the point; `dropped` digits of them did not fit the
significand. -/
def readTail (negative : Bool) (significand dropped : Nat) : List Char → Reading Found
  | '.' :: cs => readFraction negative significand dropped cs
  | 'e' :: cs => readExponent negative significand dropped cs
  | 'E' :: cs => readExponent negative significand dropped cs
  | cs =>
    if dropped = 0 then .ok (wholeNumber negative significand, cs)
    else scaledNumber negative significand dropped cs

/-- Reads a number behind its sign. -/
def readNumber (negative : Bool) : List Char → Reading Found
  | [] => .error (.before .endInValue [])
  | '0' :: cs =>
    if startsWithDigit cs then .error (.within .invalidNumber cs) else readTail negative 0 0 cs
  | c :: cs =>
    if !c.isDigit then .error (.within .invalidNumber (c :: cs))
    else
      let (n, _, rest) := takeSignificand (digitValue c) cs
      readTail negative n (rest.takeWhile Char.isDigit).length (rest.dropWhile Char.isDigit)

/-! ### Passing over numbers -/

/-- Passes over an exponent behind its letter. -/
def skipExponent (cs : List Char) : Except Fault (List Char) :=
  let cs := (exponentSign cs).2
  if startsWithDigit cs then .ok (cs.dropWhile Char.isDigit)
  else .error (.within .invalidNumber cs)

/-- Passes over an exponent, if there is one. -/
def skipScale : List Char → Except Fault (List Char)
  | 'e' :: cs => skipExponent cs
  | 'E' :: cs => skipExponent cs
  | cs => .ok cs

/-- Passes over what may follow the digits before the point. -/
def skipTail : List Char → Except Fault (List Char)
  | '.' :: cs =>
    if startsWithDigit cs then skipScale (cs.dropWhile Char.isDigit)
    else .error (.within .invalidNumber cs)
  | cs => skipScale cs

/-- Passes over a number behind its sign. -/
def skipNumber : List Char → Except Fault (List Char)
  | [] => .error (.before .invalidNumber [])
  | '0' :: cs => if startsWithDigit cs then .error (.within .invalidNumber cs) else skipTail cs
  | c :: cs =>
    if c.isDigit then skipTail (cs.dropWhile Char.isDigit)
    else .error (.within .invalidNumber (c :: cs))

theorem length_dropWhile_le {α : Type} (p : α → Bool) (l : List α) :
    (l.dropWhile p).length ≤ l.length := (List.dropWhile_sublist p).length_le

theorem exponentSign_length (cs : List Char) : (exponentSign cs).2.length ≤ cs.length := by
  unfold exponentSign
  split <;> simp

theorem skipExponent_length {cs rest : List Char} (h : skipExponent cs = .ok rest) :
    rest.length ≤ cs.length := by
  unfold skipExponent at h
  have := exponentSign_length cs
  have := length_dropWhile_le Char.isDigit (exponentSign cs).2
  simp only at h
  split at h
  · simp only [Except.ok.injEq] at h
    subst h
    omega
  · simp at h

theorem skipScale_length {cs rest : List Char} (h : skipScale cs = .ok rest) :
    rest.length ≤ cs.length := by
  unfold skipScale at h
  split at h
  · have := skipExponent_length h
    simp only [List.length_cons]
    omega
  · have := skipExponent_length h
    simp only [List.length_cons]
    omega
  · simp_all

theorem skipTail_length {cs rest : List Char} (h : skipTail cs = .ok rest) :
    rest.length ≤ cs.length := by
  unfold skipTail at h
  split at h
  · next cs =>
    split at h
    · have := skipScale_length h
      have := length_dropWhile_le Char.isDigit cs
      simp only [List.length_cons]
      omega
    · simp at h
  · exact skipScale_length h

theorem skipNumber_length {cs rest : List Char} (h : skipNumber cs = .ok rest) :
    rest.length < cs.length := by
  unfold skipNumber at h
  split at h
  · simp at h
  · split at h
    · simp at h
    · have := skipTail_length h
      simp only [List.length_cons]
      omega
  · next c cs _ =>
    split at h
    · have := skipTail_length h
      have := length_dropWhile_le Char.isDigit cs
      simp only [List.length_cons]
      omega
    · simp at h

end ScaleFactor.Json
