import ScaleFactor.Proofs.Literal.Alphabet
import ScaleFactor.Result
import ScaleFactor.Rule.Reader

/-!
# The grammar of rules

Reading a rule is a function; how a rule may be written is the relation on the other side,

    Rule.Pieces.Writes p text r

which says that the pieces `p`, put together, are the text, and that they spell the rule `r`. The
relation knows nothing of last colons, last question marks or line feeds: it only asks for a shape
with literals in it. The reader looks for the last separators, and the two directions at the end of
this file say that its search neither loses a text of that shape nor lets another one through. They
hold because no literal contains a separator (`Literal.Plain.not_mem`), which also leaves only one
way to take a text apart.

`Literal.Accepted` is a text together with the number that it is read as, so that every rule text
put together from such literals is read.
-/

namespace ScaleFactor

/-! ## The relation -/

/-- The condition of a rule with the given mark in front, as it is written: behind a `@` two
literals around the only dash, behind any other mark one literal. -/
inductive Condition.Written (mark : Char) : List Char → Condition → Prop where
  | value {cs : List Char} {x : Binary64} :
      mark ≠ '@' → Literal.read cs = .ok x → Written mark cs (.value x)
  | range {low high : List Char} {l h : Binary64} :
      mark = '@' → '-' ∉ low → '-' ∉ high → Literal.read low = .ok l → Literal.read high = .ok h →
        Written mark (low ++ '-' :: high) (.range l h)

theorem Condition.written_iff_of_ne {mark : Char} (hmark : mark ≠ '@') {cs : List Char}
    {c : Condition} : Written mark cs c ↔ ∃ x, Literal.read cs = .ok x ∧ c = .value x := by
  constructor
  · intro h
    cases h with
    | value _ hx => exact ⟨_, hx, rfl⟩
    | range hat => exact absurd hat hmark
  · rintro ⟨x, hx, rfl⟩
    exact .value hmark hx

namespace Rule

/-- The pieces with the separators between them. -/
def Pieces.text (p : Pieces) : List Char :=
  p.operator :: (p.condition ++ '?' :: (p.whenTrue ++ ':' :: p.whenFalse))

/-- The pieces, put together, are the text, and they write the rule. -/
structure Pieces.Writes (p : Pieces) (text : String) (r : Rule) : Prop where
  text_eq : text.toList = p.text
  /-- The operator is no ASCII letter and no digit. -/
  not_isAlphanum : p.operator.isAlphanum = false
  ne_underscore : p.operator ≠ '_'
  operator_eq : r.operator = Operator.ofChar p.operator
  condition : Condition.Written p.operator p.condition r.condition
  whenTrue : Literal.read p.whenTrue = .ok r.whenTrue
  whenFalse : Literal.read p.whenFalse = .ok r.whenFalse

/-! ## Cutting -/

theorem isWordChar_eq_false_iff {c : Char} :
    isWordChar c = false ↔ c.isAlphanum = false ∧ c ≠ '_' := by
  simp [isWordChar]

/-- The separators that are cut at are the last ones. -/
theorem Pieces.cut_eq_some_iff {cs : List Char} {p : Pieces} :
    cut cs = some p ↔ cs = p.text ∧ isWordChar p.operator = false ∧ '\n' ∉ cs.tail ∧
      '?' ∉ p.whenTrue ∧ ':' ∉ p.whenFalse := by
  obtain ⟨op, condition, whenTrue, whenFalse⟩ := p
  cases cs with
  | nil => simp [cut, text]
  | cons c rest =>
    simp only [text, List.tail_cons]
    constructor
    · intro h
      simp only [cut] at h
      -- no operator or a line feed; no colon; no question mark before the colon; the pieces
      split at h
      · cases h
      · next hop =>
        obtain ⟨hword, hline⟩ : isWordChar c = false ∧ '\n' ∉ rest := by simpa using hop
        split at h
        · cases h
        · next head behind hcolon =>
          split at h
          · cases h
          · next before middle hquestion =>
            cases h
            obtain ⟨rfl, hbehind⟩ := cutLast_eq_some_iff.1 hcolon
            obtain ⟨rfl, hmiddle⟩ := cutLast_eq_some_iff.1 hquestion
            exact ⟨by simp, hword, hline, hmiddle, hbehind⟩
    · rintro ⟨htext, hword, hline, hquestion, hcolon⟩
      obtain ⟨rfl, rfl⟩ := List.cons.inj htext
      -- whatever the other pieces are, the last colon is the one in front of `whenFalse`
      have hcut : cutLast ':' (condition ++ '?' :: (whenTrue ++ ':' :: whenFalse)) =
          some (condition ++ '?' :: whenTrue, whenFalse) :=
        cutLast_eq_some_iff.2 ⟨by simp, hcolon⟩
      simp [cut, hword, hline, hcut, cutLast_append hquestion]

example : Pieces.cut ":1?2:3".toList = some ⟨':', ['1'], ['2'], ['3']⟩ := by decide

/-! ## Reading the pieces -/

theorem readNumber_eq_ok_iff {piece : List Char} {x : Binary64} :
    readNumber piece = .ok x ↔ Literal.read piece = .ok x := by
  unfold readNumber
  split
  · next y hy => simp [hy]
  · next reason hreason => simp [hreason]

theorem readRange_eq_ok_iff {piece : List Char} {c : Condition} :
    readRange piece = .ok c ↔ Condition.Written '@' piece c := by
  constructor
  · intro h
    unfold readRange at h
    split at h
    · next low high hcut =>
      obtain ⟨rfl, hlow, hhigh⟩ := cutAll_eq_pair_iff.1 hcut
      split at h
      · next l h' hl hh =>
        cases h
        exact .range rfl hlow hhigh hl hh
      · cases h
    · cases h
  · intro h
    cases h with
    | value hmark _ => exact absurd rfl hmark
    | range _ hlow hhigh hl hh =>
      simp [readRange, cutAll_eq_pair_iff.2 ⟨rfl, hlow, hhigh⟩, hl, hh]

end Rule

theorem Operator.ofChar_eq_within_iff {c : Char} : ofChar c = within ↔ c = '@' := by
  unfold ofChar
  split <;> simp_all

namespace Rule

/-- In which order the pieces are read matters for the fault alone. -/
theorem ofPieces_eq_ok_iff {p : Pieces} {r : Rule} :
    ofPieces p = .ok r ↔ r.operator = Operator.ofChar p.operator ∧
      Condition.Written p.operator p.condition r.condition ∧
        Literal.read p.whenTrue = .ok r.whenTrue ∧ Literal.read p.whenFalse = .ok r.whenFalse := by
  obtain ⟨op, condition, t, f⟩ := r
  unfold ofPieces
  split
  · next hop =>
    -- a range is read after the branches, and so named after them here
    have hat : p.operator = '@' := Operator.ofChar_eq_within_iff.1 hop
    simp only [bind_eq_ok_iff, pure_eq_ok_iff, readNumber_eq_ok_iff, readRange_eq_ok_iff, hat]
    constructor
    · rintro ⟨t', ht, f', hf, c', hc, heq⟩
      cases heq
      exact ⟨rfl, hc, ht, hf⟩
    · rintro ⟨hop', hc, ht, hf⟩
      exact ⟨t, ht, f, hf, condition, hc, by rw [hop']; rfl⟩
  · next hop =>
    have hat : p.operator ≠ '@' := fun hat => hop (Operator.ofChar_eq_within_iff.2 hat)
    simp only [bind_eq_ok_iff, pure_eq_ok_iff, readNumber_eq_ok_iff]
    constructor
    · rintro ⟨x, hx, t', ht, f', hf, heq⟩
      cases heq
      exact ⟨rfl, .value hat hx, ht, hf⟩
    · rintro ⟨hop', hc, ht, hf⟩
      obtain ⟨x, hx, rfl⟩ := (Condition.written_iff_of_ne hat).1 hc
      exact ⟨x, hx, t, ht, f, hf, by rw [hop']⟩

/-! ## No separator inside a condition -/

/-- A condition is made of literals and dashes. -/
theorem plain_of_written {mark : Char} {cs : List Char} {c : Condition}
    (h : Condition.Written mark cs c) : Literal.Plain cs := by
  cases h with
  | value _ hx => exact Literal.plain_of_read hx
  | range _ _ _ hl hh =>
    exact (Literal.plain_of_read hl).append (.cons rfl (Literal.plain_of_read hh))

theorem Pieces.Writes.newline_not_mem {p : Pieces} {text : String} {r : Rule}
    (h : p.Writes text r) : '\n' ∉ p.text.tail := by
  have hc := (plain_of_written h.condition).not_mem (c := '\n') rfl
  have ht := (Literal.plain_of_read h.whenTrue).not_mem (c := '\n') rfl
  have hf := (Literal.plain_of_read h.whenFalse).not_mem (c := '\n') rfl
  simp [Pieces.text, hc, ht, hf]

/-- The pieces that write a rule are the ones that the reader cuts its text into. -/
theorem Pieces.Writes.cut_eq {p : Pieces} {text : String} {r : Rule} (h : p.Writes text r) :
    cut text.toList = some p := by
  refine cut_eq_some_iff.2 ⟨h.text_eq, ?_, ?_, ?_, ?_⟩
  · exact isWordChar_eq_false_iff.2 ⟨h.not_isAlphanum, h.ne_underscore⟩
  · rw [h.text_eq]
    exact h.newline_not_mem
  · exact (Literal.plain_of_read h.whenTrue).not_mem rfl
  · exact (Literal.plain_of_read h.whenFalse).not_mem rfl

/-! ## The two directions -/

theorem Pieces.Writes.read_eq {p : Pieces} {text : String} {r : Rule} (h : p.Writes text r) :
    read text = .ok r := by
  unfold read
  rw [h.cut_eq]
  exact ofPieces_eq_ok_iff.2 ⟨h.operator_eq, h.condition, h.whenTrue, h.whenFalse⟩

theorem exists_writes_of_read {text : String} {r : Rule} (h : read text = .ok r) :
    ∃ p : Pieces, p.Writes text r := by
  unfold read at h
  split at h
  · cases h
  · next p hcut =>
    obtain ⟨htext, hword, -⟩ := Pieces.cut_eq_some_iff.1 hcut
    obtain ⟨hdigit, hunderscore⟩ := isWordChar_eq_false_iff.1 hword
    obtain ⟨hop, hc, ht, hf⟩ := ofPieces_eq_ok_iff.1 h
    exact ⟨p, htext, hdigit, hunderscore, hop, hc, ht, hf⟩

/-- **The reader accepts exactly the grammar, and the grammar is unambiguous.** A text is read as
a rule exactly when some pieces write it, and no other pieces write the same text, whatever rule
they are taken to spell. -/
theorem read_eq_ok_iff_writes (text : String) :
    (∀ r : Rule, read text = .ok r ↔ ∃ p : Pieces, p.Writes text r) ∧
      ∀ (p q : Pieces) (r s : Rule), p.Writes text r → q.Writes text s → p = q := by
  refine ⟨fun r => ⟨exists_writes_of_read, fun ⟨p, h⟩ => h.read_eq⟩, ?_⟩
  intro p q r s hp hq
  have : some p = some q := by rw [← hp.cut_eq, ← hq.cut_eq]
  exact Option.some.inj this

end Rule

/-! ## Rules put together from literals -/

/-- A text that is a literal, with its value. -/
structure Literal.Accepted where
  text : List Char
  value : Binary64
  read_text : Literal.read text = .ok value

open Literal (Accepted)

namespace Rule

/-- The text of a rule that compares with a literal. -/
def spelled (mark : Char) (c t f : Accepted) : String :=
  String.ofList (Pieces.text ⟨mark, c.text, t.text, f.text⟩)

/-- The text of a rule that asks for a number between two literals. -/
def spelledRange (low high t f : Accepted) : String :=
  String.ofList (Pieces.text ⟨'@', low.text ++ '-' :: high.text, t.text, f.text⟩)

theorem read_spelled {mark : Char} (hword : isWordChar mark = false) (hat : mark ≠ '@')
    (c t f : Accepted) :
    read (spelled mark c t f) = .ok ⟨.ofChar mark, .value c.value, t.value, f.value⟩ := by
  obtain ⟨hdigit, hunderscore⟩ := isWordChar_eq_false_iff.1 hword
  have hwrites : Pieces.Writes ⟨mark, c.text, t.text, f.text⟩ (spelled mark c t f)
      ⟨.ofChar mark, .value c.value, t.value, f.value⟩ :=
    { text_eq := String.toList_ofList
      not_isAlphanum := hdigit
      ne_underscore := hunderscore
      operator_eq := rfl
      condition := .value hat c.read_text
      whenTrue := t.read_text
      whenFalse := f.read_text }
  exact hwrites.read_eq

theorem read_spelledRange {low high : Accepted} (hlow : '-' ∉ low.text) (hhigh : '-' ∉ high.text)
    (t f : Accepted) :
    read (spelledRange low high t f) =
      .ok ⟨.within, .range low.value high.value, t.value, f.value⟩ := by
  have hwrites : Pieces.Writes ⟨'@', low.text ++ '-' :: high.text, t.text, f.text⟩
      (spelledRange low high t f) ⟨.within, .range low.value high.value, t.value, f.value⟩ :=
    { text_eq := String.toList_ofList
      not_isAlphanum := rfl
      ne_underscore := (by decide : '@' ≠ '_')
      operator_eq := rfl
      condition := .range rfl hlow hhigh low.read_text high.read_text
      whenTrue := t.read_text
      whenFalse := f.read_text }
  exact hwrites.read_eq

end Rule

end ScaleFactor
