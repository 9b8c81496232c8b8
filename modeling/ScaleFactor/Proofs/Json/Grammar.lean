import ScaleFactor.Json.Value

/-!
# JSON text

What a JSON text is, whoever reads it. Every notion here relates a text to what is left of it: `cs`
starts with such and such a thing, behind which `rest` stands. So a thing may end in several places, a
number before each of its last digits, and the things that follow decide.

There are two notions of a string. One that somebody asks for is spelled character by character
(`Spelled`), in any way in which the language lets a character be written. One that nobody asks for has
the form of a string (`Quoted`), even if half of a surrogate pair in it names no character.
-/

namespace ScaleFactor.Json.Grammar

/-! ## Blanks and numbers -/

inductive Blanks : List Char → List Char → Prop where
  | none (rest : List Char) : Blanks rest rest
  | more {c : Char} {cs rest : List Char} :
    c ∈ [' ', '\t', '\n', '\r'] → Blanks cs rest → Blanks (c :: cs) rest

/-- One digit at least. -/
inductive Digits : List Char → List Char → Prop where
  | one {c : Char} (rest : List Char) : c.isDigit = true → Digits (c :: rest) rest
  | more {c : Char} {cs rest : List Char} :
    c.isDigit = true → Digits cs rest → Digits (c :: cs) rest

/-- One of the characters, or none. -/
inductive Sign (signs : List Char) : List Char → List Char → Prop where
  | none (rest : List Char) : Sign signs rest rest
  | some {c : Char} (rest : List Char) : c ∈ signs → Sign signs (c :: rest) rest

/-- The digits in front of the point, with no zero in front of others. -/
inductive Whole : List Char → List Char → Prop where
  | zero (rest : List Char) : Whole ('0' :: rest) rest
  | digits {cs rest : List Char} : cs.head? ≠ some '0' → Digits cs rest → Whole cs rest

inductive Fraction : List Char → List Char → Prop where
  | none (rest : List Char) : Fraction rest rest
  | some {cs rest : List Char} : Digits cs rest → Fraction ('.' :: cs) rest

inductive Exponent : List Char → List Char → Prop where
  | none (rest : List Char) : Exponent rest rest
  | some {e : Char} {cs digits rest : List Char} :
    e ∈ ['e', 'E'] → Sign ['+', '-'] cs digits → Digits digits rest → Exponent (e :: cs) rest

inductive Number : List Char → List Char → Prop where
  | intro {cs whole fraction exponent rest : List Char} :
    Sign ['-'] cs whole → Whole whole fraction → Fraction fraction exponent →
    Exponent exponent rest → Number cs rest

/-! ## Strings -/

/-- The letters that stand for a character behind a backslash. -/
def letters : List (Char × Char) :=
  [('"', '"'), ('\\', '\\'), ('/', '/'), ('b', '\x08'), ('f', '\x0c'), ('n', '\n'), ('r', '\r'),
    ('t', '\t')]

/-- The hexadecimal digits, in small and in capital letters. -/
def hexDigits : List (Char × Nat) :=
  [('0', 0), ('1', 1), ('2', 2), ('3', 3), ('4', 4), ('5', 5), ('6', 6), ('7', 7), ('8', 8),
    ('9', 9), ('a', 10), ('b', 11), ('c', 12), ('d', 13), ('e', 14), ('f', 15), ('A', 10), ('B', 11),
    ('C', 12), ('D', 13), ('E', 14), ('F', 15)]

/-- The four digits of a code unit. -/
inductive CodeUnit : Nat → List Char → List Char → Prop where
  | intro {a b c d : Char} {h i j k : Nat} (rest : List Char) :
    (a, h) ∈ hexDigits → (b, i) ∈ hexDigits → (c, j) ∈ hexDigits → (d, k) ∈ hexDigits →
    CodeUnit (4096 * h + 256 * i + 16 * j + k) (a :: b :: c :: d :: rest) rest

/-- Whether a character stands for itself in a string. -/
def Plain (c : Char) : Prop := ' ' ≤ c ∧ c ≠ '"' ∧ c ≠ '\\'

instance (c : Char) : Decidable (Plain c) := inferInstanceAs (Decidable (_ ∧ _ ∧ _))

/-- The ways of writing a character: as it is, by a letter, by its code unit, and by a pair of them. -/
inductive SpelledChar : Char → List Char → List Char → Prop where
  | plain {c : Char} (rest : List Char) : Plain c → SpelledChar c (c :: rest) rest
  | letter {l c : Char} (rest : List Char) :
    (l, c) ∈ letters → SpelledChar c ('\\' :: l :: rest) rest
  | unit {n : Nat} {cs rest : List Char} :
    n < 0xD800 ∨ 0xE000 ≤ n → CodeUnit n cs rest → SpelledChar (.ofNat n) ('\\' :: 'u' :: cs) rest
  | pair {m n : Nat} {cs ds rest : List Char} :
    m < 0x400 → n < 0x400 →
    CodeUnit (0xD800 + m) cs ('\\' :: 'u' :: ds) → CodeUnit (0xDC00 + n) ds rest →
    SpelledChar (.ofNat (0x10000 + 0x400 * m + n)) ('\\' :: 'u' :: cs) rest

/-- A string that is read, behind its opening quote. -/
inductive Spelled : List Char → List Char → List Char → Prop where
  | close (rest : List Char) : Spelled [] ('"' :: rest) rest
  | next {c : Char} {s cs ds rest : List Char} :
    SpelledChar c cs ds → Spelled s ds rest → Spelled (c :: s) cs rest

/-- A string that is passed over, behind its opening quote. -/
inductive Quoted : List Char → List Char → Prop where
  | close (rest : List Char) : Quoted ('"' :: rest) rest
  | plain {c : Char} {cs rest : List Char} : Plain c → Quoted cs rest → Quoted (c :: cs) rest
  | letter {l c : Char} {cs rest : List Char} :
    (l, c) ∈ letters → Quoted cs rest → Quoted ('\\' :: l :: cs) rest
  | unit {n : Nat} {cs ds rest : List Char} :
    CodeUnit n cs ds → Quoted ds rest → Quoted ('\\' :: 'u' :: cs) rest

/-- A spelled string has the form of a string. -/
theorem Spelled.quoted {s cs rest : List Char} (h : Spelled s cs rest) : Quoted cs rest := by
  induction h with
  | close rest => exact .close rest
  | next hc _ ih =>
    cases hc with
    | plain _ hc => exact .plain hc ih
    | letter _ hl => exact .letter hl ih
    | unit _ hunit => exact .unit hunit ih
    | pair _ _ hleading htrailing => exact .unit hleading (.unit htrailing ih)

/-! ## Values -/

/-- The brackets around a list and an object. -/
def brackets : Frame → Char × Char
  | .list => ('[', ']')
  | .object => ('{', '}')

/-- What a stretch of text is: a value, an item of a list or a member of an object with the blanks
around it, or some of these with commas between them. -/
inductive Kind where
  | value
  | element (f : Frame)
  | elements (f : Frame)

inductive Written : Kind → List Char → List Char → Prop where
  | null (rest : List Char) : Written .value ('n' :: 'u' :: 'l' :: 'l' :: rest) rest
  | true (rest : List Char) : Written .value ('t' :: 'r' :: 'u' :: 'e' :: rest) rest
  | false (rest : List Char) : Written .value ('f' :: 'a' :: 'l' :: 's' :: 'e' :: rest) rest
  | number {cs rest : List Char} : Number cs rest → Written .value cs rest
  | text {cs rest : List Char} : Quoted cs rest → Written .value ('"' :: cs) rest
  | empty {cs rest : List Char} (f : Frame) :
    Blanks cs ((brackets f).2 :: rest) → Written .value ((brackets f).1 :: cs) rest
  | filled {f : Frame} {cs rest : List Char} :
    Written (.elements f) cs ((brackets f).2 :: rest) → Written .value ((brackets f).1 :: cs) rest
  | item {cs value behind rest : List Char} :
    Blanks cs value → Written .value value behind → Blanks behind rest →
    Written (.element .list) cs rest
  | member {cs key colon blanks value behind rest : List Char} :
    Blanks cs ('"' :: key) → Quoted key colon → Blanks colon (':' :: blanks) →
    Blanks blanks value → Written .value value behind → Blanks behind rest →
    Written (.element .object) cs rest
  | last {f : Frame} {cs rest : List Char} :
    Written (.element f) cs rest → Written (.elements f) cs rest
  | more {f : Frame} {cs ds rest : List Char} :
    Written (.element f) cs (',' :: ds) → Written (.elements f) ds rest →
    Written (.elements f) cs rest

/-! ## Objects whose members are read -/

/-- A member of an object: the key, and what it holds if that is a string which is read. -/
structure Member where
  key : String
  text : Option String
  deriving DecidableEq, Repr

/-- What a member holds. -/
inductive Held : Option String → List Char → List Char → Prop where
  | text {s : String} {cs rest : List Char} :
    Spelled s.toList cs rest → Held (some s) ('"' :: cs) rest
  | value {cs rest : List Char} : Written .value cs rest → Held none cs rest

/-- What a member holds is a value in any case. -/
theorem Held.written {text : Option String} {cs rest : List Char} (h : Held text cs rest) :
    Written .value cs rest := by
  cases h with
  | text hs => exact .text hs.quoted
  | value h => exact h

/-- A member with the blanks around it. -/
inductive IsMember : Member → List Char → List Char → Prop where
  | intro {m : Member} {cs key colon blanks value behind rest : List Char} :
    Blanks cs ('"' :: key) → Spelled m.key.toList key colon → Blanks colon (':' :: blanks) →
    Blanks blanks value → Held m.text value behind → Blanks behind rest → IsMember m cs rest

/-- Members with commas between them. -/
inductive AreMembers : List Member → List Char → List Char → Prop where
  | last {m : Member} {cs rest : List Char} : IsMember m cs rest → AreMembers [m] cs rest
  | more {m : Member} {ms : List Member} {cs ds rest : List Char} :
    IsMember m cs (',' :: ds) → AreMembers ms ds rest → AreMembers (m :: ms) cs rest

inductive IsObject : List Member → List Char → List Char → Prop where
  | empty {cs rest : List Char} : Blanks cs ('}' :: rest) → IsObject [] ('{' :: cs) rest
  | filled {ms : List Member} {cs rest : List Char} :
    AreMembers ms cs ('}' :: rest) → IsObject ms ('{' :: cs) rest

/-- A whole text that is a string, as it is read. -/
def IsStringText (s text : String) : Prop :=
  ∃ cs behind, Blanks text.toList ('"' :: cs) ∧ Spelled s.toList cs behind ∧ Blanks behind []

/-- A whole text that is an object with these members. -/
def IsObjectText (ms : List Member) (text : String) : Prop :=
  ∃ object behind, Blanks text.toList object ∧ IsObject ms object behind ∧ Blanks behind []

end ScaleFactor.Json.Grammar
