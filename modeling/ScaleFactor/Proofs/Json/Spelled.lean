import ScaleFactor.Proofs.Json.Grammar
import ScaleFactor.Proofs.Json.Written

/-!
# Strings as they are spelled

The reader of strings takes every way of spelling a string, character by character: as it is, by a
letter, by a code unit, and by a pair of them (`readString_of_spelled`). The one that passes over a
string asks for its form only (`skipString_of_quoted`). And a string that is written is spelled in one
of these ways (`spelled_flatMap_writeChar`), so that what is written is JSON text.
-/

namespace ScaleFactor.Json

open Grammar

/-! ## Blanks -/

theorem isBlank_iff {c : Char} : isBlank c = true ↔ c ∈ [' ', '\t', '\n', '\r'] := by
  simp only [isBlank, Bool.or_eq_true, beq_iff_eq, List.mem_cons, List.not_mem_nil, or_false]
  grind

theorem skipBlanks_of_blanks {cs rest : List Char} (h : Blanks cs rest) :
    skipBlanks cs = skipBlanks rest := by
  induction h with
  | none rest => rfl
  | more hc _ ih => exact (List.dropWhile_cons_of_pos (isBlank_iff.2 hc)).trans ih

theorem skipBlanks_of_blanks_cons {cs rest : List Char} {c : Char} (h : Blanks cs (c :: rest))
    (hc : isBlank c = false) : skipBlanks cs = c :: rest := by
  rw [skipBlanks_of_blanks h, skipBlanks_of_not_isBlank hc]

theorem skipColon_of_blanks {cs rest : List Char} (h : Blanks cs (':' :: rest)) :
    skipColon cs = .ok rest := by
  rw [skipColon, skipBlanks_of_blanks_cons h rfl]
  rfl

/-! ## Strings that are read -/

theorem hexValue?_of_mem : ∀ p ∈ hexDigits, hexValue? p.1 = some p.2 := by decide

theorem escaped?_of_mem : ∀ p ∈ letters, escaped? p.1 = some p.2 ∧ p.1 ≠ 'u' := by decide

theorem unitValue?_of_codeUnit {n : Nat} {cs rest : List Char} (h : CodeUnit n cs rest) :
    ∃ a b c d, cs = a :: b :: c :: d :: rest ∧ unitValue? a b c d = some n := by
  obtain ⟨rest, ha, hb, hc, hd⟩ := h
  have ha := hexValue?_of_mem _ ha
  have hb := hexValue?_of_mem _ hb
  have hc := hexValue?_of_mem _ hc
  have hd := hexValue?_of_mem _ hd
  refine ⟨_, _, _, _, rfl, ?_⟩
  simp only [unitValue?, ha, hb, hc, hd, Option.bind_eq_bind, Option.bind_some, Option.pure_def,
    Option.some.injEq]
  omega

theorem readUnit_of_codeUnit {n : Nat} {cs rest : List Char} (h : CodeUnit n cs rest) :
    readUnit cs = .ok (n, rest) := by
  obtain ⟨a, b, c, d, rfl, hvalue⟩ := unitValue?_of_codeUnit h
  rw [readUnit, hvalue]

theorem readEscape_of_letter {l c : Char} (h : (l, c) ∈ letters) (rest : List Char) :
    readEscape (l :: rest) = .ok (c, rest) := by
  obtain ⟨hletter, hu⟩ := escaped?_of_mem _ h
  rw [readEscape, hletter]
  exact hu

theorem skipEscape_of_letter {l c : Char} (h : (l, c) ∈ letters) (rest : List Char) :
    skipEscape (l :: rest) = .ok rest := by
  obtain ⟨hletter, hu⟩ := escaped?_of_mem _ h
  rw [skipEscape, hletter]
  exact hu

/-- A code unit that is no half of a pair is a character. -/
theorem readUnits_of_codeUnit {n : Nat} {cs rest : List Char} (hn : n < 0xD800 ∨ 0xE000 ≤ n)
    (h : CodeUnit n cs rest) : readUnits cs = .ok (.ofNat n, rest) := by
  have htrailing : isTrailing n = false := by
    simp only [isTrailing, Bool.and_eq_false_iff, decide_eq_false_iff_not]
    omega
  have hleading : isLeading n = false := by
    simp only [isLeading, Bool.and_eq_false_iff, decide_eq_false_iff_not]
    omega
  simp [readUnits, readUnit_of_codeUnit h, htrailing, hleading]

/-- Two halves make a character beyond 16 bits. -/
theorem readUnits_of_pair {m n : Nat} {cs ds rest : List Char} (hm : m < 0x400) (hn : n < 0x400)
    (hleading : CodeUnit (0xD800 + m) cs ('\\' :: 'u' :: ds))
    (htrailing : CodeUnit (0xDC00 + n) ds rest) :
    readUnits cs = .ok (.ofNat (0x10000 + 0x400 * m + n), rest) := by
  have hfirst : isTrailing (0xD800 + m) = false ∧ isLeading (0xD800 + m) = true := by
    simp only [isTrailing, isLeading, Bool.and_eq_false_iff, Bool.and_eq_true,
      decide_eq_false_iff_not, decide_eq_true_eq]
    omega
  have hsecond : isTrailing (0xDC00 + n) = true := by
    simp only [isTrailing, Bool.and_eq_true, decide_eq_true_eq]
    omega
  have hvalue : pairValue (0xD800 + m) (0xDC00 + n) = 0x10000 + 0x400 * m + n := by
    unfold pairValue
    omega
  simp [readUnits, readTrailing, readUnit_of_codeUnit hleading, readUnit_of_codeUnit htrailing,
    hfirst, hsecond, hvalue]

theorem isControl_of_plain {c : Char} (h : Plain c) : isControl c = false := by
  have hle : ' ' ≤ c := h.1
  rw [isControl, decide_eq_false_iff_not]
  exact Char.not_lt.2 hle

/-- A character is read in each way of writing it. -/
theorem readString_of_spelledChar {c : Char} {cs rest : List Char} (h : SpelledChar c cs rest) :
    readString cs = (readString rest).map (prepend c) := by
  cases h with
  | plain _ hc => exact readString_of_plain hc.2.1 hc.2.2 (isControl_of_plain hc) rest
  | letter _ hl => exact readString_of_escape (readEscape_of_letter hl rest)
  | unit hn hunit => exact readString_of_escape (readUnits_of_codeUnit hn hunit)
  | pair hm hn hleading htrailing =>
    exact readString_of_escape (readUnits_of_pair hm hn hleading htrailing)

theorem readString_of_spelled {s cs rest : List Char} (h : Spelled s cs rest) :
    readString cs = .ok (s, rest) := by
  induction h with
  | close => rw [readString]
  | next hc _ ih =>
    rw [readString_of_spelledChar hc, ih]
    rfl

theorem skipString_of_escape {cs rest : List Char} (h : skipEscape cs = .ok rest) :
    skipString ('\\' :: cs) = skipString rest := by
  rw [skipString]
  split
  · next hfault =>
    rw [h] at hfault
    cases hfault
  · next hok =>
    rw [h] at hok
    cases hok
    rfl

theorem skipString_of_quoted {cs rest : List Char} (h : Quoted cs rest) :
    skipString cs = .ok rest := by
  induction h with
  | close => rw [skipString]
  | plain hc _ ih =>
    rw [skipString, isControl_of_plain hc]
    · exact ih
    · exact hc.2.1
    · exact hc.2.2
  | letter hl _ ih => rw [skipString_of_escape (skipEscape_of_letter hl _), ih]
  | @unit n cs ds rest hunit _ ih =>
    have hescape : skipEscape ('u' :: cs) = .ok ds := by
      rw [skipEscape, readUnit_of_codeUnit hunit]
    rw [skipString_of_escape hescape, ih]

theorem skipKey_of_quoted {cs key colon rest : List Char} (hcs : Blanks cs ('"' :: key))
    (hkey : Quoted key colon) (hcolon : Blanks colon (':' :: rest)) : skipKey cs = .ok rest := by
  simp only [skipKey, skipBlanks_of_blanks_cons hcs rfl, skipString_of_quoted hkey]
  exact skipColon_of_blanks hcolon

/-! ## Strings that are written -/

theorem mem_letters_of_escaped? {l c : Char} (h : escaped? l = some c) : (l, c) ∈ letters := by
  unfold escaped? at h
  split at h
  all_goals first | cases h; decide | cases h

theorem mem_letters_of_readEscape {l c : Char} (h : readEscape [l] = .ok (c, [])) :
    (l, c) ∈ letters := by
  unfold readEscape at h
  split at h
  · cases h
  · next heq =>
    obtain ⟨-, rfl⟩ := List.cons.inj heq
    cases h
  · next heq =>
    obtain ⟨rfl, rfl⟩ := List.cons.inj heq
    split at h
    · next hletter =>
      cases h
      exact mem_letters_of_escaped? hletter
    · cases h

theorem digitChar_mem_hexDigits : ∀ d < 16, (Nat.digitChar d, d) ∈ hexDigits := by decide

theorem codeUnit_digitChar {n : Nat} (h : n < 32) (rest : List Char) : CodeUnit n
    ('0' :: '0' :: Nat.digitChar (n / 16) :: Nat.digitChar (n % 16) :: rest) rest := by
  have hunit := CodeUnit.intro rest (digitChar_mem_hexDigits 0 (by decide))
    (digitChar_mem_hexDigits 0 (by decide)) (digitChar_mem_hexDigits (n / 16) (by omega))
    (digitChar_mem_hexDigits (n % 16) (by omega))
  have hvalue : 4096 * 0 + 256 * 0 + 16 * (n / 16) + n % 16 = n := by omega
  rwa [hvalue] at hunit

theorem spelledChar_writeChar (c : Char) (rest : List Char) :
    SpelledChar c (writeChar c ++ rest) rest := by
  rcases writeChar_cases c with
    ⟨letter, hwritten, hletter⟩ | ⟨hcontrol, hwritten⟩ | ⟨hquote, hbackslash, hcontrol, hwritten⟩
  · rw [hwritten]
    exact .letter rest (mem_letters_of_readEscape (hletter []))
  · have hlt : c.toNat < 32 := isControl_iff.1 hcontrol
    have hunit := SpelledChar.unit (.inl (by omega)) (codeUnit_digitChar hlt rest)
    have hdigits := writeUnit_ofNat c.toNat hlt
    rw [Char.ofNat_toNat] at hunit hdigits
    rw [hwritten, hdigits]
    exact hunit
  · rw [hwritten]
    refine .plain rest ⟨?_, hquote, hbackslash⟩
    rw [isControl, decide_eq_false_iff_not] at hcontrol
    exact Char.not_lt.1 hcontrol

theorem spelled_flatMap_writeChar (s rest : List Char) :
    Spelled s (s.flatMap writeChar ++ '"' :: rest) rest := by
  induction s with
  | nil => exact .close rest
  | cons c s ih =>
    rw [List.flatMap_cons, List.append_assoc]
    exact .next (spelledChar_writeChar c _) ih

end ScaleFactor.Json
