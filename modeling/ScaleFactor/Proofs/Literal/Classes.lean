import ScaleFactor.Proofs.Literal.Rounded

/-!
# The classes of texts

Every text falls into one of five classes, and which one is a matter of the grammar alone: it names
an infinity, it names not-a-number, it is a numeral, it is empty, or it is none of these. What is
read of it, and with which message it fails otherwise, says which class it is in (`Verdict`,
`verdict_read`). Only for a numeral there are two outcomes, and its exact value decides between
them.

Whether an infinite number has been named is found out behind all the signs of a text, where a
number has only one. No numeral passes for an infinity in this way, and a text with two signs in
front is no number at all.
-/

namespace ScaleFactor.Literal

open Binary64 (overflow RoundsTo)

variable {text : List Char} {negative : Bool} {q : ℚ}

/-! ## The verdict -/

/-- What a text comes to. -/
inductive Verdict (text : List Char) : Except Fault Binary64 → Prop where
  | empty : text = [] → Verdict text (.error .empty)
  | infinity {negative : Bool} : IsInfinity text negative → Verdict text (.ok (.infinite negative))
  | nan : IsNaN text → Verdict text (.ok .nan)
  | finite {negative : Bool} {q : ℚ} {x : Binary64} : IsNumeral text negative q → |q| < overflow →
      x.isNaN = false → x.isInfinite = false → Verdict text (.ok x)
  | outOfRange {negative : Bool} {q : ℚ} : IsNumeral text negative q → overflow ≤ |q| →
      Verdict text (.error .outOfRange)
  | invalid : text ≠ [] → (∀ negative, ¬IsInfinity text negative) → ¬IsNaN text →
      (∀ negative q, ¬IsNumeral text negative q) → Verdict text (.error .invalid)

theorem ne_nil_of_ofText? {x : Binary64} (h : Binary64.ofText? text = some x) : text ≠ [] := by
  rintro rfl
  cases h

theorem read_of_isInfinity (h : IsInfinity text negative) :
    read text = .ok (.infinite negative) := by
  have htext := Binary64.ofText?_of_isInfinity h
  have hne := ne_nil_of_ofText? htext
  obtain ⟨hsign, hbody⟩ := h
  have hword := isInfinityWord_iff.2 hbody
  have hnames := namesInfinity_append hsign (bare_of_isInfinityWord hword)
  simp [read, hne, htext, hnames, hword]

theorem read_of_isNaN (h : IsNaN text) : read text = .ok .nan := by
  have htext := Binary64.ofText?_of_isNaN h
  simp [read, ne_nil_of_ofText? htext, htext, Binary64.isInfinite]

theorem verdict_of_isNumeral (h : IsNumeral text negative q) : Verdict text (read text) := by
  rcases lt_or_ge |q| overflow with hlt | hge
  · obtain ⟨x, hx⟩ := (exists_read_iff_of_isNumeral h).2 hlt
    obtain ⟨hnan, hinfinite⟩ := finite_of_read h hx
    rw [hx]
    exact .finite h hlt hnan hinfinite
  · rw [(read_eq_outOfRange_iff_of_isNumeral h).2 hge]
    exact .outOfRange h hge

theorem read_of_ofText?_eq_none (hne : text ≠ []) (h : Binary64.ofText? text = none) :
    read text = .error .invalid := by
  simp [read, hne, h]

theorem verdict_read (text : List Char) : Verdict text (read text) := by
  cases htext : Binary64.ofText? text with
  | none =>
    by_cases hne : text = []
    · rw [hne]
      exact .empty rfl
    · rw [read_of_ofText?_eq_none hne htext]
      refine .invalid hne ?_ ?_ ?_
      · intro negative h
        rw [Binary64.ofText?_of_isInfinity h] at htext
        cases htext
      · intro h
        rw [Binary64.ofText?_of_isNaN h] at htext
        cases htext
      · intro negative q h
        obtain ⟨n, hn, -⟩ := Binary64.ofText?_of_isNumeral h
        rw [hn] at htext
        cases htext
  | some x =>
    rcases Binary64.grammar_of_ofText? htext with ⟨s, h, -⟩ | ⟨h, -⟩ | ⟨s, n, h, -⟩
    · rw [read_of_isInfinity h]
      exact .infinity h
    · rw [read_of_isNaN h]
      exact .nan h
    · exact verdict_of_isNumeral h

/-- The class of a text from the number that is read of it. -/
theorem class_of_read {x : Binary64} (hx : read text = .ok x) :
    (∃ s, IsInfinity text s ∧ x = .infinite s) ∨ (IsNaN text ∧ x = .nan) ∨
      (∃ s q, IsNumeral text s q) ∧ x.isNaN = false ∧ x.isInfinite = false := by
  have hverdict := verdict_read text
  rw [hx] at hverdict
  cases hverdict with
  | infinity h => exact .inl ⟨_, h, rfl⟩
  | nan h => exact .inr (.inl ⟨h, rfl⟩)
  | finite h _ hnan hinfinite => exact .inr (.inr ⟨⟨_, _, h⟩, hnan, hinfinite⟩)

/-! ## Texts that are in no class -/

/-- At most one sign stands in front of a number. -/
theorem exists_bare_of_ofText? {x : Binary64} (h : Binary64.ofText? text = some x) :
    ∃ sign body negative, Sign sign negative ∧ Bare body ∧ text = sign ++ body := by
  rcases Binary64.grammar_of_ofText? h with ⟨s, h, -⟩ | ⟨h, -⟩ | ⟨s, n, h, -⟩
  · obtain ⟨hsign, hbody⟩ := h
    exact ⟨_, _, _, hsign, bare_of_isInfinityWord (isInfinityWord_iff.2 hbody), rfl⟩
  · obtain ⟨hsign, hbody⟩ := h
    exact ⟨_, _, _, hsign, bare_of_map_toLower (map_toLower_eq_nanWord_iff.2 hbody) rfl, rfl⟩
  · generalize Binary64.signed s n.value = q at h
    obtain ⟨hsign, hbody⟩ := h
    exact ⟨_, _, _, hsign, Numeral.bare_of_unsigned hbody, rfl⟩

theorem read_of_two_signs {c d : Char} {rest : List Char} (hc : c = '+' ∨ c = '-')
    (hd : d = '+' ∨ d = '-') : read (c :: d :: rest) = .error .invalid := by
  apply read_of_ofText?_eq_none (List.cons_ne_nil _ _)
  rw [Option.eq_none_iff_forall_not_mem]
  intro x hx
  obtain ⟨sign, body, negative, hsign, hbody, htext⟩ := exists_bare_of_ofText? hx
  -- the second sign would stand in front of the body, if not the first one
  have hfront : ∃ e ∈ body.head?, e = '+' ∨ e = '-' := by
    cases hsign with
    | none =>
      rw [List.nil_append] at htext
      rw [← htext]
      exact ⟨c, rfl, hc⟩
    | plus | minus =>
      obtain ⟨-, rfl⟩ := List.cons.inj htext
      exact ⟨d, rfl, hd⟩
  obtain ⟨e, he, hsign⟩ := hfront
  obtain ⟨hplus, hminus⟩ := hbody e he
  exact hsign.elim hplus hminus

theorem read_of_not_isMark {c : Char} (hmem : c ∈ text) (hc : isMark c = false) :
    read text = .error .invalid := by
  apply read_of_ofText?_eq_none (List.ne_nil_of_mem hmem)
  rw [Option.eq_none_iff_forall_not_mem]
  intro x hx
  exact (Binary64.plain_of_ofText? hx).not_mem hc hmem

/-! ## Classification -/

theorem read_eq_infinite_iff : read text = .ok (.infinite negative) ↔ IsInfinity text negative := by
  refine ⟨?_, read_of_isInfinity⟩
  intro hx
  rcases class_of_read hx with ⟨s, h, heq⟩ | ⟨-, heq⟩ | ⟨-, -, hfinite⟩
  · rwa [(Binary64.number.inj heq).1]
  · cases heq
  · rw [Binary64.isInfinite_infinite] at hfinite
    cases hfinite

theorem read_eq_nan_iff : read text = .ok .nan ↔ IsNaN text := by
  refine ⟨?_, read_of_isNaN⟩
  intro hx
  rcases class_of_read hx with ⟨s, -, heq⟩ | ⟨h, -⟩ | ⟨-, hnan, -⟩
  · cases heq
  · exact h
  · cases hnan

theorem read_eq_outOfRange_iff : read text = .error .outOfRange ↔
    ∃ negative q, IsNumeral text negative q ∧ overflow ≤ |q| := by
  constructor
  · intro hread
    have hverdict := verdict_read text
    rw [hread] at hverdict
    cases hverdict with
    | outOfRange h hge => exact ⟨_, _, h, hge⟩
  · rintro ⟨negative, q, h, hge⟩
    exact (read_eq_outOfRange_iff_of_isNumeral h).2 hge

/-- Numerals are the texts that finite numbers are read of, and those that are out of range. -/
theorem exists_isNumeral_iff :
    (∃ x, read text = .ok x ∧ x.isNaN = false ∧ x.isInfinite = false) ∨
      read text = .error .outOfRange ↔ ∃ negative q, IsNumeral text negative q := by
  constructor
  · rintro (⟨x, hx, hnan, hinfinite⟩ | hread)
    · rcases class_of_read hx with ⟨s, -, rfl⟩ | ⟨-, rfl⟩ | ⟨h, -⟩
      · rw [Binary64.isInfinite_infinite] at hinfinite
        cases hinfinite
      · cases hnan
      · exact h
    · obtain ⟨negative, q, h, -⟩ := read_eq_outOfRange_iff.1 hread
      exact ⟨negative, q, h⟩
  · rintro ⟨negative, q, h⟩
    rcases lt_or_ge |q| overflow with hlt | hge
    · obtain ⟨x, hx⟩ := (exists_read_iff_of_isNumeral h).2 hlt
      exact .inl ⟨x, hx, finite_of_read h hx⟩
    · exact .inr ((read_eq_outOfRange_iff_of_isNumeral h).2 hge)

theorem read_eq_empty_iff : read text = .error .empty ↔ text = [] := by
  constructor
  · intro hread
    have hverdict := verdict_read text
    rw [hread] at hverdict
    cases hverdict with
    | empty h => exact h
  · rintro rfl
    rfl

theorem read_eq_invalid_iff : read text = .error .invalid ↔ text ≠ [] ∧
    (∀ negative, ¬IsInfinity text negative) ∧ ¬IsNaN text ∧
      ∀ negative q, ¬IsNumeral text negative q := by
  have hverdict := verdict_read text
  constructor
  · intro hread
    rw [hread] at hverdict
    cases hverdict with
    | invalid hne hinfinity hnan hnumeral => exact ⟨hne, hinfinity, hnan, hnumeral⟩
  · rintro ⟨hne, hinfinity, hnan, hnumeral⟩
    generalize read text = result at hverdict
    cases hverdict with
    | empty h => exact absurd h hne
    | infinity h => exact absurd h (hinfinity _)
    | nan h => exact absurd h hnan
    | finite h => exact absurd h (hnumeral _ _)
    | outOfRange h => exact absurd h (hnumeral _ _)
    | invalid => rfl

/-- **What is read of a text says which class it is in, and the class says what is read.** It is an
infinity or a NaN exactly for the words in any case with one sign at most; it is a finite number, or
out of range, exactly for the numerals, the latter from `overflow` on; only the empty text is called
empty; and every other text is called invalid. Among these are the texts with two signs in front and
those with a character that is no ASCII letter, no digit, no sign and no point. And a numeral never
passes for a named infinity, so that it is not read as one when it is out of range. -/
theorem read_classifies (text : List Char) :
    (∀ negative, read text = .ok (.infinite negative) ↔ IsInfinity text negative) ∧
    (read text = .ok .nan ↔ IsNaN text) ∧
    ((∃ x, read text = .ok x ∧ x.isNaN = false ∧ x.isInfinite = false) ∨
      FailsWith text "value out of range" ↔ ∃ negative q, IsNumeral text negative q) ∧
    (FailsWith text "value out of range" ↔
      ∃ negative q, IsNumeral text negative q ∧ overflow ≤ |q|) ∧
    (FailsWith text "cannot parse float from empty string" ↔ text = []) ∧
    (FailsWith text "invalid float literal" ↔ text ≠ [] ∧
      (∀ negative, ¬IsInfinity text negative) ∧ ¬IsNaN text ∧
      ∀ negative q, ¬IsNumeral text negative q) ∧
    (∀ c d rest, c = '+' ∨ c = '-' → d = '+' ∨ d = '-' → text = c :: d :: rest →
      FailsWith text "invalid float literal") ∧
    (∀ c ∈ text, isMark c = false → FailsWith text "invalid float literal") ∧
    ∀ negative q, IsNumeral text negative q → namesInfinity text = false := by
  have hempty : FailsWith text "cannot parse float from empty string" ↔ read text = .error .empty :=
    @failsWith_message_iff text .empty
  have hinvalid : FailsWith text "invalid float literal" ↔ read text = .error .invalid :=
    @failsWith_message_iff text .invalid
  have houtOfRange : FailsWith text "value out of range" ↔ read text = .error .outOfRange :=
    @failsWith_message_iff text .outOfRange
  rw [hempty, hinvalid, houtOfRange]
  refine ⟨fun _ => read_eq_infinite_iff, read_eq_nan_iff, exists_isNumeral_iff,
    read_eq_outOfRange_iff, read_eq_empty_iff, read_eq_invalid_iff, ?_, ?_, ?_⟩
  · rintro c d rest hc hd rfl
    exact read_of_two_signs hc hd
  · intro c hmem hc
    exact read_of_not_isMark hmem hc
  · intro negative q h
    exact namesInfinity_of_isNumeral h

example : read "+-inf".toList = .error .invalid := by decide

example : read "0x1p3".toList = .error .invalid := by decide

end ScaleFactor.Literal
