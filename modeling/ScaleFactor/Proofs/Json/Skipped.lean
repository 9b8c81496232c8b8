import ScaleFactor.Proofs.Json.Spelled

/-!
# Values that are passed over

A value of any kind and depth that nobody asked for is passed over to its end
(`skipValue_of_written`).

A number has no end of its own. It is passed over as far as its digits go, so that what follows must
not go on with one (`Bounded`), and in a text blanks, a comma or a bracket follow. Lists and objects
are kept on a stack by the reader: behind a value it goes on with what is open around it (`skipRest`).
So the induction says of every stretch of text which call is left to make behind it (`Passed`).
-/

namespace ScaleFactor.Json

open Grammar

/-! ## Where a value ends -/

/-- Whether a text goes on with what may follow a value. -/
def Bounded (rest : List Char) : Prop :=
  ∀ c ∈ rest.head?, c ∈ [' ', '\t', '\n', '\r', ',', ']', '}']

theorem bounded_cons {c : Char} (h : c ∈ [' ', '\t', '\n', '\r', ',', ']', '}'])
    (rest : List Char) : Bounded (c :: rest) := by
  simpa [Bounded] using h

theorem Bounded.of_blanks {cs rest : List Char} (h : Blanks cs rest) (hrest : Bounded rest) :
    Bounded cs := by
  cases h with
  | none => exact hrest
  | more hc _ =>
    refine bounded_cons (List.mem_append_left [',', ']', '}'] hc) _

/-! ## Numbers -/

theorem Bounded.startsWithDigit {rest : List Char} (h : Bounded rest) :
    startsWithDigit rest = false := by
  cases rest with
  | nil => rfl
  | cons c rest =>
    have hc := h c rfl
    simp only [List.mem_cons, List.not_mem_nil, or_false] at hc
    rcases hc with rfl | rfl | rfl | rfl | rfl | rfl | rfl <;> rfl

theorem startsWithDigit_of_digits {cs rest : List Char} (h : Digits cs rest) :
    startsWithDigit cs = true := by
  cases h with
  | one _ hc => exact hc
  | more hc _ => exact hc

theorem dropWhile_of_digits {cs rest : List Char} (h : Digits cs rest)
    (hrest : startsWithDigit rest = false) : cs.dropWhile Char.isDigit = rest := by
  induction h with
  | one rest hc =>
    rw [List.dropWhile_cons_of_pos hc]
    cases rest with
    | nil => rfl
    | cons d rest => exact List.dropWhile_cons_of_neg (ne_true_of_eq_false hrest)
  | more hc _ ih => rw [List.dropWhile_cons_of_pos hc, ih hrest]

theorem exponentSign_of_sign {cs digits rest : List Char} (h : Sign ['+', '-'] cs digits)
    (hdigits : Digits digits rest) : (exponentSign cs).2 = digits := by
  cases h with
  | some _ hc =>
    simp only [List.mem_cons, List.not_mem_nil, or_false] at hc
    rcases hc with rfl | rfl <;> rfl
  | none =>
    have hstart := startsWithDigit_of_digits hdigits
    unfold exponentSign
    split
    · cases hstart
    · cases hstart
    · rfl

theorem skipScale_of_exponent {cs rest : List Char} (h : Exponent cs rest) (hrest : Bounded rest) :
    skipScale cs = .ok rest := by
  cases h with
  | none =>
    unfold skipScale
    split
    · exact absurd (hrest 'e' rfl) (by decide)
    · exact absurd (hrest 'E' rfl) (by decide)
    · rfl
  | @some e cs digits _ he hsign hdigits =>
    have hskip : skipExponent cs = .ok rest := by
      rw [skipExponent, exponentSign_of_sign hsign hdigits, if_pos (startsWithDigit_of_digits hdigits),
        dropWhile_of_digits hdigits hrest.startsWithDigit]
    simp only [List.mem_cons, List.not_mem_nil, or_false] at he
    rcases he with rfl | rfl
    · exact hskip
    · exact hskip

theorem Grammar.Exponent.startsWithDigit {cs rest : List Char} (h : Exponent cs rest)
    (hrest : Bounded rest) : startsWithDigit cs = false := by
  cases h with
  | none => exact hrest.startsWithDigit
  | some he _ _ =>
    simp only [List.mem_cons, List.not_mem_nil, or_false] at he
    rcases he with rfl | rfl <;> rfl

theorem skipTail_of_fraction {cs exponent rest : List Char} (h : Fraction cs exponent)
    (hexponent : Exponent exponent rest) (hrest : Bounded rest) : skipTail cs = .ok rest := by
  have hscale := skipScale_of_exponent hexponent hrest
  cases h with
  | some hdigits =>
    rw [skipTail, if_pos (startsWithDigit_of_digits hdigits),
      dropWhile_of_digits hdigits (hexponent.startsWithDigit hrest), hscale]
  | none =>
    unfold skipTail
    split
    · -- what follows the digits is no point
      cases hexponent with
      | none => exact absurd (hrest '.' rfl) (by decide)
      | some he _ _ => exact absurd he (by decide)
    · exact hscale

theorem skipNumber_of_whole {cs fraction exponent rest : List Char} (h : Whole cs fraction)
    (hfraction : Fraction fraction exponent) (hexponent : Exponent exponent rest)
    (hrest : Bounded rest) : skipNumber cs = .ok rest := by
  have htail := skipTail_of_fraction hfraction hexponent hrest
  have hstart : startsWithDigit fraction = false := by
    cases hfraction with
    | none => exact hexponent.startsWithDigit hrest
    | some _ => rfl
  cases h with
  | zero =>
    rw [skipNumber, hstart]
    exact htail
  | digits hzero hdigits =>
    have hdrop := dropWhile_of_digits hdigits hstart
    unfold skipNumber
    split
    · cases hdigits
    · exact absurd rfl hzero
    · next c cs _ =>
      have hdigit : c.isDigit = true := startsWithDigit_of_digits hdigits
      rw [List.dropWhile_cons_of_pos hdigit] at hdrop
      rw [if_pos hdigit, hdrop, htail]

theorem startsWithDigit_of_whole {cs rest : List Char} (h : Whole cs rest) :
    startsWithDigit cs = true := by
  cases h with
  | zero => rfl
  | digits _ hdigits => exact startsWithDigit_of_digits hdigits

theorem skipScalar_of_number {cs rest : List Char} (h : Number cs rest) (hrest : Bounded rest) :
    skipScalar cs = .ok rest := by
  obtain ⟨hsign, hwhole, hfraction, hexponent⟩ := h
  have hnumber := skipNumber_of_whole hwhole hfraction hexponent hrest
  cases hsign with
  | some _ hc =>
    obtain rfl := List.mem_singleton.1 hc
    exact hnumber
  | none =>
    have hstart := startsWithDigit_of_whole hwhole
    unfold skipScalar
    -- none of the other beginnings is a digit
    split
    all_goals first | cases hstart | skip
    · next c cs _ _ _ _ _ =>
      have hdigit : c.isDigit = true := hstart
      rw [if_pos hdigit, hnumber]

/-! ## Values -/

/-- What is left to do behind an opening bracket or a comma. -/
def enter (f : Frame) (stack : List Frame) (cs : List Char) : Except Fault (List Char) :=
  match f with
  | .list => skipValue (.list :: stack) cs
  | .object => skipKey cs >>= skipValue (.object :: stack)

section Steps

variable {f : Frame} {stack : List Frame} {before cs rest : List Char}

theorem isBlank_brackets (f : Frame) :
    isBlank (brackets f).1 = false ∧ isBlank (brackets f).2 = false := by
  cases f <;> decide

theorem skipRest_closing (h : Blanks cs ((brackets f).2 :: rest)) :
    skipRest (f :: stack) cs = skipRest stack rest := by
  have hcs := skipBlanks_of_blanks_cons h (isBlank_brackets f).2
  cases f with
  | list =>
    rw [skipRest]
    split <;> simp_all [brackets]
  | object =>
    rw [skipRest]
    split <;> simp_all [brackets]

theorem skipRest_comma (h : Blanks cs (',' :: rest)) :
    skipRest (f :: stack) cs = enter f stack rest := by
  have hcs := skipBlanks_of_blanks_cons h rfl
  cases f with
  | list =>
    rw [skipRest]
    split <;> simp_all [enter]
  | object =>
    rw [skipRest, enter]
    split
    · simp_all
    · next hcomma =>
      obtain rfl : rest = _ := (List.cons.inj (hcs.symm.trans hcomma)).2
      split <;> simp_all [bind, Except.bind]
    · simp_all
    · simp_all

theorem skipValue_empty (h : Blanks before ((brackets f).1 :: cs))
    (hcs : Blanks cs ((brackets f).2 :: rest)) : skipValue stack before = skipRest stack rest := by
  have hbefore := skipBlanks_of_blanks_cons h (isBlank_brackets f).1
  have hclosing := skipBlanks_of_blanks_cons hcs (isBlank_brackets f).2
  cases f with
  | list =>
    rw [skipValue]
    split
    · next hlist =>
      obtain rfl : cs = _ := (List.cons.inj (hbefore.symm.trans hlist)).2
      split <;> simp_all [brackets]
    · simp_all [brackets]
    · simp_all [brackets]
  | object =>
    rw [skipValue]
    split
    · simp_all [brackets]
    · next hobject =>
      obtain rfl : cs = _ := (List.cons.inj (hbefore.symm.trans hobject)).2
      split <;> simp_all [brackets]
    · simp_all [brackets]

theorem skipValue_filled (h : Blanks before ((brackets f).1 :: cs)) {c : Char} {tail : List Char}
    (hcs : skipBlanks cs = c :: tail) (hc : (brackets f).2 ≠ c) :
    skipValue stack before = enter f stack cs := by
  have hbefore := skipBlanks_of_blanks_cons h (isBlank_brackets f).1
  cases f with
  | list =>
    rw [skipValue, enter]
    split
    · next hlist =>
      obtain rfl : cs = _ := (List.cons.inj (hbefore.symm.trans hlist)).2
      split <;> simp_all [brackets]
    · simp_all [brackets]
    · simp_all [brackets]
  | object =>
    rw [skipValue, enter]
    split
    · simp_all [brackets]
    · next hobject =>
      obtain rfl : cs = _ := (List.cons.inj (hbefore.symm.trans hobject)).2
      split
      · simp_all [brackets]
      · split <;> simp_all [bind, Except.bind]
    · simp_all [brackets]

theorem skipScalar_bracket (f : Frame) (cs rest : List Char) :
    skipScalar ((brackets f).1 :: cs) ≠ .ok rest := by
  cases f <;> exact nofun

theorem skipValue_scalar (h : skipScalar (skipBlanks before) = .ok rest) :
    skipValue stack before = skipRest stack rest := by
  rw [skipValue]
  split
  · next hlist =>
    rw [hlist] at h
    exact absurd h (skipScalar_bracket .list _ _)
  · next hobject =>
    rw [hobject] at h
    exact absurd h (skipScalar_bracket .object _ _)
  · split <;> simp_all

end Steps

theorem bounded_closing (f : Frame) (rest : List Char) : Bounded ((brackets f).2 :: rest) :=
  bounded_cons (by cases f <;> decide) rest

/-- Whether a character is neither a blank nor a bracket that closes. -/
def Opens (c : Char) : Prop := isBlank c = false ∧ ∀ f, (brackets f).2 ≠ c

instance (c : Char) : Decidable (Opens c) :=
  decidable_of_iff (isBlank c = false ∧ ']' ≠ c ∧ '}' ≠ c)
    ⟨fun ⟨hblank, hlist, hobject⟩ => ⟨hblank, fun | .list => hlist | .object => hobject⟩,
      fun ⟨hblank, hclosing⟩ => ⟨hblank, hclosing .list, hclosing .object⟩⟩

theorem opens_of_isDigit {c : Char} (h : c.isDigit = true) : Opens c := by
  refine ⟨?_, ?_⟩
  · rw [← Bool.not_eq_true, isBlank_iff]
    intro hblank
    simp only [List.mem_cons, List.not_mem_nil, or_false] at hblank
    rcases hblank with rfl | rfl | rfl | rfl <;> cases h
  · rintro f rfl
    cases f <;> cases h

theorem head_of_value {cs rest : List Char} (h : Written .value cs rest) :
    ∃ c tail, cs = c :: tail ∧ Opens c := by
  cases h with
  | null => exact ⟨'n', _, rfl, by decide⟩
  | true => exact ⟨'t', _, rfl, by decide⟩
  | false => exact ⟨'f', _, rfl, by decide⟩
  | text => exact ⟨'"', _, rfl, by decide⟩
  | empty f => exact ⟨_, _, rfl, by cases f <;> decide⟩
  | @filled f => exact ⟨_, _, rfl, by cases f <;> decide⟩
  | number hnumber =>
    obtain ⟨hsign, hwhole, -, -⟩ := hnumber
    cases hsign with
    | some _ hc =>
      obtain rfl := List.mem_singleton.1 hc
      exact ⟨'-', _, rfl, by decide⟩
    | none =>
      have hdigit := startsWithDigit_of_whole hwhole
      cases cs with
      | nil => cases hdigit
      | cons c cs => exact ⟨c, cs, rfl, opens_of_isDigit hdigit⟩

/-- In front of items and members there are blanks at most. -/
theorem head_of_elements {f : Frame} {cs rest : List Char} (h : Written (.elements f) cs rest) :
    ∃ c tail, skipBlanks cs = c :: tail ∧ Opens c := by
  have helement {ds : List Char} (h : Written (.element f) cs ds) :
      ∃ c tail, skipBlanks cs = c :: tail ∧ Opens c := by
    cases h with
    | item hcs hvalue _ =>
      obtain ⟨c, tail, rfl, hc⟩ := head_of_value hvalue
      exact ⟨c, tail, skipBlanks_of_blanks_cons hcs hc.1, hc⟩
    | member hcs _ _ _ _ _ => exact ⟨'"', _, skipBlanks_of_blanks_cons hcs rfl, by decide⟩
  cases h with
  | last h => exact helement h
  | more h _ => exact helement h

/-- The call that is left to make behind a stretch of text. -/
def Passed : Kind → List Char → List Char → Prop
  | .value, cs, rest => Bounded rest → ∀ (stack : List Frame) (before : List Char),
      Blanks before cs → skipValue stack before = skipRest stack rest
  | .element f, cs, rest => Bounded rest → ∃ behind, Blanks behind rest ∧
      ∀ stack : List Frame, enter f stack cs = skipRest (f :: stack) behind
  | .elements f, cs, rest => ∀ (behind : List Char) (stack : List Frame),
      rest = (brackets f).2 :: behind → enter f stack cs = skipRest stack behind

theorem passed_of_written {k : Kind} {cs rest : List Char} (h : Written k cs rest) :
    Passed k cs rest := by
  have hscalar {c : Char} {cs rest : List Char} (hc : isBlank c = false)
      (hskip : skipScalar (c :: cs) = .ok rest) (stack : List Frame) (before : List Char)
      (hbefore : Blanks before (c :: cs)) : skipValue stack before = skipRest stack rest := by
    refine skipValue_scalar ?_
    rwa [skipBlanks_of_blanks_cons hbefore hc]
  induction h with
  | null rest => exact fun _ => hscalar rfl rfl
  | true rest => exact fun _ => hscalar rfl rfl
  | false rest => exact fun _ => hscalar rfl rfl
  | text hquoted => exact fun _ => hscalar rfl (skipString_of_quoted hquoted)
  | number hnumber =>
    obtain ⟨c, tail, rfl, hc⟩ := head_of_value (.number hnumber)
    exact fun hrest => hscalar hc.1 (skipScalar_of_number hnumber hrest)
  | empty f hcs => exact fun _ stack before hbefore => skipValue_empty hbefore hcs
  | @filled f cs rest helements ih =>
    intro _ stack before hbefore
    obtain ⟨c, tail, hhead, hc⟩ := head_of_elements helements
    rw [skipValue_filled hbefore hhead (hc.2 f), ih rest stack rfl]
  | item hcs _ hbehind ih =>
    intro hrest
    refine ⟨_, hbehind, ?_⟩
    intro stack
    exact ih (hrest.of_blanks hbehind) (.list :: stack) _ hcs
  | member hcs hkey hcolon hblanks _ hbehind ih =>
    intro hrest
    refine ⟨_, hbehind, ?_⟩
    intro stack
    show skipKey _ >>= skipValue (.object :: stack) = _
    rw [skipKey_of_quoted hcs hkey hcolon]
    exact ih (hrest.of_blanks hbehind) (.object :: stack) _ hblanks
  | @last f cs rest _ ih =>
    rintro behind stack rfl
    obtain ⟨blanks, hblanks, henter⟩ := ih (bounded_closing f behind)
    rw [henter, skipRest_closing hblanks]
  | @more f cs ds rest _ _ ih ih' =>
    intro behind stack hrest
    obtain ⟨blanks, hblanks, henter⟩ := ih (bounded_cons (by decide) ds)
    rw [henter, skipRest_comma hblanks, ih' behind stack hrest]

/-- **A value that nobody asked for is passed over to its end**, whatever it is made of, with any
blanks in front of it. -/
theorem skipValue_of_written {before cs rest : List Char} (hbefore : Blanks before cs)
    (h : Written .value cs rest) (hrest : Bounded rest) : skipValue [] before = .ok rest := by
  rw [passed_of_written h hrest [] before hbefore, skipRest]

end ScaleFactor.Json
