import ScaleFactor.Json.Fault

/-!
# Strings in JSON text

`readString` reads a string behind its opening quote, `writeString` writes one. Escapes name a
character by a letter or by the four hexadecimal digits of a 16-bit code unit; a character beyond
16 bits takes two units in a row. `skipString` passes over a string that nobody asked for: it
checks the shape of escapes only, not which code units they name.
-/

namespace ScaleFactor.Json

/-! ### Reading -/

/-- The value of a hexadecimal digit. -/
def hexValue? (c : Char) : Option Nat :=
  if '0' ≤ c ∧ c ≤ '9' then some (c.toNat - '0'.toNat)
  else if 'a' ≤ c ∧ c ≤ 'f' then some (c.toNat - 'a'.toNat + 10)
  else if 'A' ≤ c ∧ c ≤ 'F' then some (c.toNat - 'A'.toNat + 10)
  else none

/-- The value of four hexadecimal digits. -/
def unitValue? (a b c d : Char) : Option Nat := do
  return (((← hexValue? a) * 16 + (← hexValue? b)) * 16 + (← hexValue? c)) * 16 + (← hexValue? d)

/-- The fault of a text that does not start with four hexadecimal digits: the four bytes that
should be digits are read all the same, if there are so many. -/
def unitFault (cs : List Char) : Fault :=
  if byteSize cs < 4 then ⟨.endInString, 0⟩ else ⟨.invalidEscape, byteSize cs - 4⟩

/-- Reads the four digits of a code unit. -/
def readUnit : List Char → Reading Nat
  | a :: b :: c :: d :: rest =>
    match unitValue? a b c d with
    | some n => .ok (n, rest)
    | none => .error (unitFault (a :: b :: c :: d :: rest))
  | cs => .error (unitFault cs)

/-- The first half of a pair of code units. -/
def isLeading (n : Nat) : Bool := 0xD800 ≤ n && n ≤ 0xDBFF

/-- The second half of a pair of code units. -/
def isTrailing (n : Nat) : Bool := 0xDC00 ≤ n && n ≤ 0xDFFF

/-- The character of a pair of code units. -/
def pairValue (leading trailing : Nat) : Nat :=
  (leading - 0xD800) * 0x400 + (trailing - 0xDC00) + 0x10000

/-- Reads the second half of a pair, behind the first one. -/
def readTrailing (leading : Nat) : List Char → Reading Char
  | [] => .error (.before .endInString [])
  | '\\' :: 'u' :: cs =>
    match readUnit cs with
    | .error e => .error e
    | .ok (n, rest) =>
      if isTrailing n then .ok (.ofNat (pairValue leading n), rest)
      else .error (.before .loneSurrogate rest)
  | ['\\'] => .error (.before .endInString [])
  | '\\' :: cs => .error (.within .unfinishedSurrogate cs)
  | cs => .error (.within .unfinishedSurrogate cs)

/-- Reads a character written by its code units, behind the first `u`. -/
def readUnits (cs : List Char) : Reading Char :=
  match readUnit cs with
  | .error e => .error e
  | .ok (n, rest) =>
    if isTrailing n then .error (.before .loneSurrogate rest)
    else if isLeading n then readTrailing n rest
    else .ok (.ofNat n, rest)

/-- The character that a letter behind a backslash stands for. -/
def escaped? : Char → Option Char
  | '"' => some '"'
  | '\\' => some '\\'
  | '/' => some '/'
  | 'b' => some '\x08'
  | 'f' => some '\x0c'
  | 'n' => some '\n'
  | 'r' => some '\r'
  | 't' => some '\t'
  | _ => none

/-- Reads an escape behind its backslash. -/
def readEscape : List Char → Reading Char
  | [] => .error (.before .endInString [])
  | 'u' :: cs => readUnits cs
  | c :: cs =>
    match escaped? c with
    | some d => .ok (d, cs)
    | none => .error (.within .invalidEscape (c :: cs))

theorem readUnit_length {cs rest : List Char} {n : Nat} (h : readUnit cs = .ok (n, rest)) :
    rest.length < cs.length := by
  unfold readUnit at h
  split at h
  · split at h
    · simp only [Except.ok.injEq, Prod.mk.injEq] at h
      obtain ⟨-, rfl⟩ := h
      simp only [List.length_cons]
      omega
    · simp at h
  · simp at h

theorem readTrailing_length {leading : Nat} {cs rest : List Char} {c : Char}
    (h : readTrailing leading cs = .ok (c, rest)) : rest.length < cs.length := by
  unfold readTrailing at h
  split at h
  · simp at h
  · split at h
    · simp at h
    · next hu =>
      have := readUnit_length hu
      split at h
      · simp only [Except.ok.injEq, Prod.mk.injEq] at h
        obtain ⟨-, rfl⟩ := h
        simp only [List.length_cons]
        omega
      · simp at h
  · simp at h
  · simp at h
  · simp at h

theorem readUnits_length {cs rest : List Char} {c : Char} (h : readUnits cs = .ok (c, rest)) :
    rest.length < cs.length := by
  unfold readUnits at h
  split at h
  · simp at h
  · next hu =>
    have := readUnit_length hu
    split at h
    · simp at h
    · split at h
      · have := readTrailing_length h
        omega
      · simp only [Except.ok.injEq, Prod.mk.injEq] at h
        obtain ⟨-, rfl⟩ := h
        omega

theorem readEscape_length {cs rest : List Char} {c : Char} (h : readEscape cs = .ok (c, rest)) :
    rest.length < cs.length := by
  unfold readEscape at h
  split at h
  · simp at h
  · have := readUnits_length h
    simp only [List.length_cons]
    omega
  · split at h
    · simp only [Except.ok.injEq, Prod.mk.injEq] at h
      obtain ⟨-, rfl⟩ := h
      simp
    · simp at h

/-- The characters that may not stand in a string as they are. -/
def isControl (c : Char) : Bool := c < ' '

/-- Reads a string behind its opening quote, up to and with the closing one. -/
def readString : List Char → Reading (List Char)
  | [] => .error (.before .endInString [])
  | '"' :: cs => .ok ([], cs)
  | '\\' :: cs =>
    match h : readEscape cs with
    | .error e => .error e
    | .ok (c, rest) =>
      have := readEscape_length h
      match readString rest with
      | .error e => .error e
      | .ok (s, rest) => .ok (c :: s, rest)
  | c :: cs =>
    if isControl c then .error (.within .controlCharacter (c :: cs))
    else match readString cs with
    | .error e => .error e
    | .ok (s, rest) => .ok (c :: s, rest)
termination_by cs => cs.length

/-- Passes over an escape behind its backslash. -/
def skipEscape : List Char → Except Fault (List Char)
  | [] => .error (.before .endInString [])
  | 'u' :: cs =>
    match readUnit cs with
    | .error e => .error e
    | .ok (_, rest) => .ok rest
  | c :: cs =>
    match escaped? c with
    | some _ => .ok cs
    | none => .error (.within .invalidEscape (c :: cs))

theorem skipEscape_length {cs rest : List Char} (h : skipEscape cs = .ok rest) :
    rest.length < cs.length := by
  unfold skipEscape at h
  split at h
  · simp at h
  · split at h
    · simp at h
    · next hu =>
      have := readUnit_length hu
      simp only [Except.ok.injEq] at h
      subst h
      simp only [List.length_cons]
      omega
  · split at h
    · simp only [Except.ok.injEq] at h
      subst h
      simp
    · simp at h

/-- Passes over a string behind its opening quote. -/
def skipString : List Char → Except Fault (List Char)
  | [] => .error (.before .endInString [])
  | '"' :: cs => .ok cs
  | '\\' :: cs =>
    match h : skipEscape cs with
    | .error e => .error e
    | .ok rest =>
      have := skipEscape_length h
      skipString rest
  | c :: cs =>
    if isControl c then .error (.before .controlCharacter (c :: cs)) else skipString cs
termination_by cs => cs.length

theorem readString_length {cs rest s : List Char} (h : readString cs = .ok (s, rest)) :
    rest.length < cs.length := by
  fun_induction readString cs generalizing s rest with
  | case1 => simp at h
  | case2 => simp_all
  | case3 => simp at h
  | case4 => simp_all
  | case5 cs c after hc shorter t last ht ih =>
    have := ih ht
    simp only [Except.ok.injEq, Prod.mk.injEq] at h
    obtain ⟨-, rfl⟩ := h
    simp only [List.length_cons]
    omega
  | case6 => simp at h
  | case7 => simp_all
  | case8 c cs _ _ hc t last ht ih =>
    have := ih ht
    simp only [Except.ok.injEq, Prod.mk.injEq] at h
    obtain ⟨-, rfl⟩ := h
    simp only [List.length_cons]
    omega

theorem skipString_length {cs rest : List Char} (h : skipString cs = .ok rest) :
    rest.length < cs.length := by
  fun_induction skipString cs with
  | case1 => simp at h
  | case2 => simp_all
  | case3 => simp at h
  | case4 cs _ _ _ ih => have := ih h; simp only [List.length_cons]; omega
  | case5 => simp at h
  | case6 c cs _ _ _ ih => have := ih h; simp only [List.length_cons]; omega

/-! ### Writing -/

/-- A control character by its code unit, in lower-case digits. -/
def writeUnit (c : Char) : List Char :=
  let digits := Nat.toDigits 16 c.toNat
  '\\' :: 'u' :: List.replicate (4 - digits.length) '0' ++ digits

/-- How a character is written in a string: the quote, the backslash and the control characters
are escaped. -/
def writeChar (c : Char) : List Char :=
  if c = '"' then ['\\', '"']
  else if c = '\\' then ['\\', '\\']
  else if c = '\x08' then ['\\', 'b']
  else if c = '\x0c' then ['\\', 'f']
  else if c = '\n' then ['\\', 'n']
  else if c = '\r' then ['\\', 'r']
  else if c = '\t' then ['\\', 't']
  else if isControl c then writeUnit c
  else [c]

/-- Writes a string with its quotes. -/
def writeString (s : List Char) : List Char := '"' :: s.flatMap writeChar ++ ['"']

end ScaleFactor.Json
