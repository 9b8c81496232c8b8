import ScaleFactor.Json.Reader
import ScaleFactor.Json.Writer

/-!
# Reading what was written

A string is written character by character, and each character alone is read back, whatever follows
it (`readString_writeChar`). There are three kinds of them: a character with an escape of its own, a
control character, which is written as a code unit of two hexadecimal digits, and any other
character, which stands for itself, beyond 16 bits too. So no written character ends the string, and
the quote behind it does (`readString_flatMap_writeChar`).

A list is read back item by item in the same way: brackets and commas inside a text are no matter,
since a text is left only behind its closing quote (`readTextList_writeTextList`).
-/

namespace ScaleFactor.Json

/-! ## Characters -/

/-- Puts one more item in front of a list that was read. -/
def prepend {α : Type} (a : α) : List α × List Char → List α × List Char := Prod.map (a :: ·) id

theorem readString_of_escape {c : Char} {cs rest : List Char}
    (h : readEscape cs = .ok (c, rest)) :
    readString ('\\' :: cs) = (readString rest).map (prepend c) := by
  rw [readString]
  split
  · next hfault =>
    rw [h] at hfault
    cases hfault
  · next c' rest' hok =>
    rw [h] at hok
    cases hok
    cases readString rest <;> rfl

theorem readString_of_plain {c : Char} (hquote : c ≠ '"') (hbackslash : c ≠ '\\')
    (hcontrol : isControl c = false) (cs : List Char) :
    readString (c :: cs) = (readString cs).map (prepend c) := by
  rw [readString, hcontrol]
  · cases readString cs <;> rfl
  · exact hquote
  · exact hbackslash

theorem isControl_iff {c : Char} : isControl c = true ↔ c.toNat < 32 := by
  rw [isControl, decide_eq_true_eq]
  exact Iff.rfl

theorem hexValue?_digitChar : ∀ d < 16, hexValue? (Nat.digitChar d) = some d := by decide

theorem writeUnit_ofNat : ∀ n < 32, writeUnit (.ofNat n) =
    ['\\', 'u', '0', '0', Nat.digitChar (n / 16), Nat.digitChar (n % 16)] := by decide

/-- The four digits of a code unit below all surrogates are its character. -/
theorem readUnits_of_unitValue {a b c d : Char} {n : Nat} (h : unitValue? a b c d = some n)
    (hn : n < 0xD800) (rest : List Char) :
    readUnits (a :: b :: c :: d :: rest) = .ok (.ofNat n, rest) := by
  have hunit : readUnit (a :: b :: c :: d :: rest) = .ok (n, rest) := by rw [readUnit, h]
  have htrailing : isTrailing n = false := by simp only [isTrailing, Bool.and_eq_false_imp]; grind
  have hleading : isLeading n = false := by simp only [isLeading, Bool.and_eq_false_imp]; grind
  simp [readUnits, hunit, htrailing, hleading]

/-- A control character is written by its code unit and read back as what has that code unit. -/
theorem readString_writeUnit {c : Char} (h : isControl c = true) (rest : List Char) :
    readString (writeUnit c ++ rest) = (readString rest).map (prepend c) := by
  have hlt : c.toNat < 32 := isControl_iff.1 h
  have hvalue : unitValue? '0' '0' (Nat.digitChar (c.toNat / 16)) (Nat.digitChar (c.toNat % 16)) =
      some c.toNat := by
    have hhigh := hexValue?_digitChar (c.toNat / 16) (by omega)
    have hlow := hexValue?_digitChar (c.toNat % 16) (by omega)
    have hzero : hexValue? '0' = some 0 := rfl
    simp only [unitValue?, hhigh, hlow, hzero, Option.bind_eq_bind, Option.bind_some,
      Option.pure_def, Option.some.injEq]
    omega
  have hwritten := writeUnit_ofNat c.toNat hlt
  rw [Char.ofNat_toNat] at hwritten
  rw [hwritten]
  apply readString_of_escape
  show readUnits ('0' :: '0' :: _ :: _ :: rest) = _
  rw [readUnits_of_unitValue hvalue (by omega), Char.ofNat_toNat]

/-- The three ways of writing a character: by a letter, by its code unit, and as it is. -/
theorem writeChar_cases (c : Char) :
    (∃ letter, writeChar c = ['\\', letter] ∧
        ∀ rest, readEscape (letter :: rest) = .ok (c, rest)) ∨
      (isControl c = true ∧ writeChar c = writeUnit c) ∨
      (c ≠ '"' ∧ c ≠ '\\' ∧ isControl c = false ∧ writeChar c = [c]) := by
  unfold writeChar
  -- the letters first, in the order in which they are tried
  split
  · next hc =>
    subst hc
    exact .inl ⟨'"', rfl, fun _ => rfl⟩
  split
  · next hc =>
    subst hc
    exact .inl ⟨'\\', rfl, fun _ => rfl⟩
  split
  · next hc =>
    subst hc
    exact .inl ⟨'b', rfl, fun _ => rfl⟩
  split
  · next hc =>
    subst hc
    exact .inl ⟨'f', rfl, fun _ => rfl⟩
  split
  · next hc =>
    subst hc
    exact .inl ⟨'n', rfl, fun _ => rfl⟩
  split
  · next hc =>
    subst hc
    exact .inl ⟨'r', rfl, fun _ => rfl⟩
  split
  · next hc =>
    subst hc
    exact .inl ⟨'t', rfl, fun _ => rfl⟩
  split
  · next hcontrol => exact .inr (.inl ⟨hcontrol, rfl⟩)
  · next hquote hbackslash _ _ _ _ _ hcontrol =>
    exact .inr (.inr ⟨hquote, hbackslash, by simpa using hcontrol, rfl⟩)

/-- Each written character is read back, whatever follows it. -/
theorem readString_writeChar (c : Char) (rest : List Char) :
    readString (writeChar c ++ rest) = (readString rest).map (prepend c) := by
  rcases writeChar_cases c with
    ⟨letter, hwritten, hletter⟩ | ⟨hcontrol, hwritten⟩ | ⟨hquote, hbackslash, hcontrol, hwritten⟩
  · rw [hwritten]
    exact readString_of_escape (hletter rest)
  · rw [hwritten]
    exact readString_writeUnit hcontrol rest
  · rw [hwritten]
    exact readString_of_plain hquote hbackslash hcontrol rest

/-! ## Strings and lists of strings -/

theorem readString_flatMap_writeChar (s rest : List Char) :
    readString (s.flatMap writeChar ++ '"' :: rest) = .ok (s, rest) := by
  induction s with
  | nil =>
    show readString ('"' :: rest) = _
    rw [readString]
  | cons c s ih =>
    rw [List.flatMap_cons, List.append_assoc, readString_writeChar, ih]
    rfl

theorem skipBlanks_of_not_isBlank {c : Char} (h : isBlank c = false) (cs : List Char) :
    skipBlanks (c :: cs) = c :: cs := List.dropWhile_cons_of_neg (by simp [h])

theorem readText_writeString (s rest : List Char) :
    readText (writeString s ++ rest) = .ok (s, rest) := by
  have hwritten : writeString s ++ rest = '"' :: (s.flatMap writeChar ++ '"' :: rest) := by
    simp [writeString]
  rw [hwritten, readText, skipBlanks_of_not_isBlank rfl]
  exact readString_flatMap_writeChar s rest

theorem readTexts_of_none {first : Bool} {cs : List Char} (h : nextItem first cs = .ok none) :
    readTexts first cs = .ok ([], (skipBlanks cs).tail) := by
  rw [readTexts]
  split
  · next hfault =>
    rw [h] at hfault
    cases hfault
  · rfl
  · next hitem =>
    rw [h] at hitem
    cases hitem

theorem readTexts_of_some {first : Bool} {cs item s rest : List Char}
    (h : nextItem first cs = .ok (some item)) (hitem : readText item = .ok (s, rest)) :
    readTexts first cs = (readTexts false rest).map (prepend s) := by
  rw [readTexts]
  split
  · next hfault =>
    rw [h] at hfault
    cases hfault
  · next hnone =>
    rw [h] at hnone
    cases hnone
  · next item' hsome =>
    rw [h] at hsome
    cases hsome
    split
    · next hfault =>
      rw [hitem] at hfault
      cases hfault
    · next hok =>
      rw [hitem] at hok
      cases hok
      cases readTexts false rest <;> rfl

theorem readTexts_closing (first : Bool) (rest : List Char) :
    readTexts first (']' :: rest) = .ok ([], rest) := by
  have hnone : nextItem first (']' :: rest) = .ok none := rfl
  rw [readTexts_of_none hnone, skipBlanks_of_not_isBlank rfl]
  rfl

/-- Behind the first item a comma stands in front of each. -/
theorem separated_cons (item : List Char) (items : List (List Char)) :
    separated (item :: items) = item ++ items.flatMap (',' :: ·) := by
  induction items generalizing item with
  | nil => simp [separated]
  | cons next items ih =>
    show item ++ ',' :: separated (next :: items) = _
    rw [ih, List.flatMap_cons]
    rfl

/-- The texts behind the first one, up to the closing bracket. -/
theorem readTexts_flatMap_writeString (texts : List (List Char)) (rest : List Char) :
    readTexts false ((texts.map writeString).flatMap (',' :: ·) ++ ']' :: rest) =
      .ok (texts, rest) := by
  induction texts with
  | nil => exact readTexts_closing false rest
  | cons s texts ih =>
    rw [List.map_cons, List.flatMap_cons, List.cons_append, List.cons_append, List.append_assoc]
    generalize (texts.map writeString).flatMap (',' :: ·) ++ ']' :: rest = behind at ih ⊢
    have hnext : nextItem false (',' :: (writeString s ++ behind)) =
        .ok (some (writeString s ++ behind)) := by
      simp [nextItem, skipBlanks_of_not_isBlank, isBlank, writeString]
    rw [readTexts_of_some hnext (readText_writeString s behind), ih]
    rfl

theorem readTextList_writeTextList (texts : List (List Char)) (rest : List Char) :
    readTextList (writeTextList texts ++ rest) = .ok (texts, rest) := by
  have hwritten : writeTextList texts ++ rest =
      '[' :: (separated (texts.map writeString) ++ ']' :: rest) := by simp [writeTextList]
  rw [hwritten, readTextList, skipBlanks_of_not_isBlank rfl]
  show readTexts true _ = _
  cases texts with
  | nil => exact readTexts_closing true rest
  | cons s texts =>
    rw [List.map_cons, separated_cons, List.append_assoc]
    have hbehind := readTexts_flatMap_writeString texts rest
    generalize (texts.map writeString).flatMap (',' :: ·) ++ ']' :: rest = behind at hbehind ⊢
    -- no comma in front of the first text
    have hnext : nextItem true (writeString s ++ behind) =
        .ok (some (writeString s ++ behind)) := by
      simp [nextItem, skipBlanks_of_not_isBlank, isBlank, writeString]
    rw [readTexts_of_some hnext (readText_writeString s behind), hbehind]
    rfl

/-- A document that holds nothing but what was written is read to its end. -/
theorem readDocument_of_read {α : Type} {read : List Char → Reading α} {text : List Char} {a : α}
    (h : read text = .ok (a, [])) : readDocument read (.ofList text) = .ok a := by
  rw [readDocument, String.toList_ofList, h]
  rfl

end ScaleFactor.Json
