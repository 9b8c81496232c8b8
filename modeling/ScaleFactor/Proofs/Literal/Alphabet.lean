import Mathlib
import ScaleFactor.Rule.Literal

/-!
# The alphabet of literals

A literal is written with ASCII letters, digits, signs and a point, and with nothing else. Neither
a separator of a rule nor a line feed can stand inside one, which is why a rule text falls apart
in one way only.

`Literal.plain_of_read` is the statement the grammar of rules rests on. It is put together from
one lemma for each part of a number, innermost first. `Literal.finished_of_read` is put together in
the same way: a literal does not end where the digits of an exponent would have to follow.
-/

namespace ScaleFactor

/-- The characters of literals. -/
def Literal.isMark (c : Char) : Bool := c.isAlphanum || c == '+' || c == '-' || c == '.'

/-- Every character of the text is a character of literals. -/
def Literal.Plain (cs : List Char) : Prop := ∀ c ∈ cs, Literal.isMark c = true

namespace Literal

theorem isMark_of_isAlpha {c : Char} (h : c.isAlpha = true) : isMark c = true := by
  simp [isMark, Char.isAlphanum, h]

theorem isMark_of_isDigit {c : Char} (h : c.isDigit = true) : isMark c = true := by
  simp [isMark, Char.isAlphanum, h]

theorem Plain.nil : Plain [] := by simp [Plain]

theorem Plain.cons {c : Char} {cs : List Char} (hc : isMark c = true) (hcs : Plain cs) :
    Plain (c :: cs) := by
  intro d hd
  rcases List.mem_cons.1 hd with rfl | hd
  · exact hc
  · exact hcs d hd

theorem Plain.append {cs ds : List Char} (hcs : Plain cs) (hds : Plain ds) :
    Plain (cs ++ ds) := by
  intro c hc
  rcases List.mem_append.1 hc with hc | hc
  · exact hcs c hc
  · exact hds c hc

/-- A character that is none of theirs stands in no plain text. -/
theorem Plain.not_mem {cs : List Char} (h : Plain cs) {c : Char} (hc : isMark c = false) :
    c ∉ cs := by
  intro hmem
  rw [h c hmem] at hc
  cases hc

end Literal

open Literal (Plain)

/-! ## Numerals -/

namespace Numeral

theorem isDigit_of_digits? {cs : List Char} {n : Nat} (h : digits? cs = some n) :
    cs ≠ [] ∧ ∀ c ∈ cs, c.isDigit = true := by
  unfold digits? at h
  split at h
  · next hcs => exact ⟨hcs.1, List.all_eq_true.1 hcs.2⟩
  · cases h

theorem plain_of_digits? {cs : List Char} {n : Nat} (h : digits? cs = some n) : Plain cs :=
  fun c hc => Literal.isMark_of_isDigit ((isDigit_of_digits? h).2 c hc)

theorem plain_of_signedDigits? {cs : List Char} {e : Int} (h : signedDigits? cs = some e) :
    Plain cs := by
  unfold signedDigits? at h
  split at h
  · obtain ⟨n, hn, -⟩ := Option.map_eq_some_iff.1 h
    exact .cons rfl (plain_of_digits? hn)
  · obtain ⟨n, hn, -⟩ := Option.map_eq_some_iff.1 h
    exact .cons rfl (plain_of_digits? hn)
  · obtain ⟨n, hn, -⟩ := Option.map_eq_some_iff.1 h
    exact plain_of_digits? hn

theorem plain_of_exponent? {cs : List Char} {e : Int} (h : exponent? cs = some e) :
    Plain cs := by
  cases cs with
  | nil => exact .nil
  | cons c cs =>
    simp only [exponent?] at h
    split at h
    · next hc =>
      rcases hc with rfl | rfl
      · exact .cons rfl (plain_of_signedDigits? h)
      · exact .cons rfl (plain_of_signedDigits? h)
    · cases h

/-- What stands in front of the rest is a point with digits behind it, or nothing. -/
theorem exists_append_decimals (cs : List Char) :
    ∃ front, (∀ c ∈ front, c = '.' ∨ c.isDigit = true) ∧ cs = front ++ (decimals cs).2 := by
  unfold decimals
  split
  · next ds =>
    refine ⟨'.' :: ds.takeWhile Char.isDigit, ?_, by simp⟩
    intro c hc
    exact (List.mem_cons.1 hc).imp id List.mem_takeWhile_imp
  · exact ⟨[], fun _ hc => absurd hc List.not_mem_nil, rfl⟩

/-- A numeral falls into digits and a point, not in any order, and an exponent or nothing. -/
theorem exists_append_of_read? {cs : List Char} {x : Numeral} (h : read? cs = some x) :
    ∃ front rest e, cs = front ++ rest ∧ (∀ c ∈ front, c = '.' ∨ c.isDigit = true) ∧
      exponent? rest = some e := by
  obtain ⟨point, hpoint, hcs⟩ := exists_append_decimals (cs.dropWhile Char.isDigit)
  simp only [read?] at h
  split at h
  · cases h
  · obtain ⟨e, he, -⟩ := Option.map_eq_some_iff.1 h
    refine ⟨cs.takeWhile Char.isDigit ++ point, _, e, ?_, ?_, he⟩
    · rw [List.append_assoc, ← hcs, List.takeWhile_append_dropWhile]
    · intro c hc
      rcases List.mem_append.1 hc with hc | hc
      · exact .inr (List.mem_takeWhile_imp hc)
      · exact hpoint c hc

theorem plain_of_read? {cs : List Char} {x : Numeral} (h : read? cs = some x) : Plain cs := by
  obtain ⟨front, rest, e, rfl, hfront, he⟩ := exists_append_of_read? h
  refine Plain.append ?_ (plain_of_exponent? he)
  intro c hc
  rcases hfront c hc with rfl | hdigit
  · rfl
  · exact Literal.isMark_of_isDigit hdigit

end Numeral

/-! ## Numbers of either sign, and literals -/

namespace Binary64

/-- A text that is a word of letters, up to the case of the letters, has no other characters. -/
theorem isAlpha_of_map_toLower {cs word : List Char} (h : cs.map Char.toLower = word)
    (hword : word.all Char.isAlpha = true) : ∀ c ∈ cs, c.isAlpha = true := by
  intro c hc
  have hlower : c.toLower.isAlpha = true :=
    List.all_eq_true.1 hword _ (h ▸ List.mem_map_of_mem hc)
  rwa [Char.isAlpha_toLower_eq_isAlpha] at hlower

theorem plain_of_map_toLower {cs word : List Char} (h : cs.map Char.toLower = word)
    (hword : word.all Char.isAlpha = true) : Plain cs :=
  fun c hc => Literal.isMark_of_isAlpha (isAlpha_of_map_toLower h hword c hc)

theorem plain_of_isInfinityWord {cs : List Char} (h : isInfinityWord cs = true) : Plain cs := by
  have hmem : cs.map Char.toLower ∈ infinityWords := List.contains_iff_mem.1 h
  have hall : infinityWords.all (·.all Char.isAlpha) = true := rfl
  exact plain_of_map_toLower rfl (List.all_eq_true.1 hall _ hmem)

theorem plain_splitSign (cs : List Char) (h : Plain (splitSign cs).2) : Plain cs := by
  unfold splitSign at h
  split at h
  · exact .cons rfl h
  · exact .cons rfl h
  · exact h

/-- A number is a sign or none, and then one of the words or a numeral. -/
theorem ofText?_cases {cs : List Char} {x : Binary64} (h : ofText? cs = some x) :
    ∃ negative body, splitSign cs = (negative, body) ∧
      ((isInfinityWord body = true ∧ x = infinite negative) ∨
        (body.map Char.toLower = nanWord ∧ x = nan) ∨
        ∃ n, Numeral.read? body = some n ∧ x = n.round negative) := by
  unfold ofText? at h
  refine ⟨(splitSign cs).1, (splitSign cs).2, rfl, ?_⟩
  simp only at h
  split at h
  · next hinf =>
    cases h
    exact .inl ⟨hinf, rfl⟩
  · split at h
    · next hnan =>
      cases h
      exact .inr (.inl ⟨hnan, rfl⟩)
    · obtain ⟨n, hn, rfl⟩ := Option.map_eq_some_iff.1 h
      exact .inr (.inr ⟨n, hn, rfl⟩)

theorem plain_of_ofText? {cs : List Char} {x : Binary64} (h : ofText? cs = some x) :
    Plain cs := by
  obtain ⟨negative, body, hsplit, hbody⟩ := ofText?_cases h
  apply plain_splitSign
  rw [hsplit]
  rcases hbody with ⟨hinf, -⟩ | ⟨hnan, -⟩ | ⟨n, hn, -⟩
  · exact plain_of_isInfinityWord hinf
  · exact plain_of_map_toLower hnan rfl
  · exact Numeral.plain_of_read? hn

end Binary64

namespace Literal

/-- Only an infinity that is not named is no literal, although it is a number. -/
theorem ofText?_of_read {cs : List Char} {x : Binary64} (h : read cs = .ok x) :
    Binary64.ofText? cs = some x := by
  unfold read at h
  split at h
  · cases h
  · split at h
    · cases h
    · next y hy =>
      split at h
      · cases h
      · cases h
        exact hy

theorem plain_of_read {cs : List Char} {x : Binary64} (h : read cs = .ok x) : Plain cs :=
  Binary64.plain_of_ofText? (ofText?_of_read h)

end Literal

/-! ## How a literal ends -/

/-- The character announces an exponent. -/
def Numeral.isExponentMark (c : Char) : Bool := c == 'e' || c == 'E'

/-- The text does not end where digits of an exponent are missing. -/
def Literal.Finished (cs : List Char) : Prop :=
  ∀ c ∈ cs.getLast?, Numeral.isExponentMark c = false

open Numeral (isExponentMark)

open Literal (Finished)

theorem Numeral.isExponentMark_of_isDigit {c : Char} (h : c.isDigit = true) :
    isExponentMark c = false := by
  rw [isExponentMark, Bool.or_eq_false_iff, beq_eq_false_iff_ne, beq_eq_false_iff_ne]
  refine ⟨?_, ?_⟩
  · rintro rfl
    cases h
  · rintro rfl
    cases h

namespace Literal

theorem Finished.of_forall {cs : List Char} (h : ∀ c ∈ cs, isExponentMark c = false) :
    Finished cs :=
  fun c hc => h c (List.mem_of_getLast? hc)

theorem Finished.append {ds : List Char} (hne : ds ≠ []) (h : Finished ds) (cs : List Char) :
    Finished (cs ++ ds) := by
  unfold Finished
  rw [List.getLast?_append_of_ne_nil cs hne]
  exact h

theorem Finished.cons {c : Char} {cs : List Char} (hc : isExponentMark c = false)
    (h : Finished cs) : Finished (c :: cs) := by
  cases cs with
  | nil => exact .of_forall fun d hd => List.mem_singleton.1 hd ▸ hc
  | cons d ds => exact h.append (List.cons_ne_nil d ds) [c]

end Literal

namespace Numeral

theorem finished_of_digits? {cs : List Char} {n : Nat} (h : digits? cs = some n) :
    cs ≠ [] ∧ Finished cs := by
  obtain ⟨hne, hdigits⟩ := isDigit_of_digits? h
  exact ⟨hne, .of_forall fun c hc => isExponentMark_of_isDigit (hdigits c hc)⟩

theorem finished_of_signedDigits? {cs : List Char} {e : Int} (h : signedDigits? cs = some e) :
    cs ≠ [] ∧ Finished cs := by
  unfold signedDigits? at h
  split at h
  · obtain ⟨n, hn, -⟩ := Option.map_eq_some_iff.1 h
    exact ⟨List.cons_ne_nil _ _, (finished_of_digits? hn).2.cons rfl⟩
  · obtain ⟨n, hn, -⟩ := Option.map_eq_some_iff.1 h
    exact ⟨List.cons_ne_nil _ _, (finished_of_digits? hn).2.cons rfl⟩
  · obtain ⟨n, hn, -⟩ := Option.map_eq_some_iff.1 h
    exact finished_of_digits? hn

/-- Behind the mark of an exponent there are digits. -/
theorem finished_of_exponent? {cs : List Char} {e : Int} (h : exponent? cs = some e) :
    Finished cs := by
  cases cs with
  | nil => exact .of_forall fun c hc => absurd hc List.not_mem_nil
  | cons c cs =>
    simp only [exponent?] at h
    split at h
    · obtain ⟨hne, hcs⟩ := finished_of_signedDigits? h
      exact hcs.append hne [c]
    · cases h

theorem finished_of_read? {cs : List Char} {x : Numeral} (h : read? cs = some x) :
    Finished cs := by
  obtain ⟨front, rest, e, rfl, hfront, he⟩ := exists_append_of_read? h
  by_cases hrest : rest = []
  · rw [hrest, List.append_nil]
    refine .of_forall fun c hc => ?_
    rcases hfront c hc with rfl | hdigit
    · rfl
    · exact isExponentMark_of_isDigit hdigit
  · exact (finished_of_exponent? he).append hrest front

end Numeral

namespace Binary64

/-- A word without the letter ends with another one, up to the case of the letters. -/
theorem finished_of_map_toLower {cs word : List Char} (h : cs.map Char.toLower = word)
    (hword : word.contains 'e' = false) : Finished cs := by
  refine .of_forall fun c hc => ?_
  have hlower : c.toLower ∈ word := h ▸ List.mem_map_of_mem hc
  rw [isExponentMark, Bool.or_eq_false_iff, beq_eq_false_iff_ne, beq_eq_false_iff_ne]
  rw [← Bool.not_eq_true, List.contains_iff_mem] at hword
  refine ⟨?_, ?_⟩
  · rintro rfl
    exact hword hlower
  · rintro rfl
    exact hword hlower

theorem finished_of_isInfinityWord {cs : List Char} (h : isInfinityWord cs = true) :
    Finished cs := by
  have hmem : cs.map Char.toLower ∈ infinityWords := List.contains_iff_mem.1 h
  have hall : infinityWords.all (fun word => !word.contains 'e') = true := by decide
  exact finished_of_map_toLower rfl (by simpa using List.all_eq_true.1 hall _ hmem)

theorem finished_splitSign (cs : List Char) (h : Finished (splitSign cs).2) : Finished cs := by
  unfold splitSign at h
  split at h
  · exact h.cons rfl
  · exact h.cons rfl
  · exact h

theorem finished_of_ofText? {cs : List Char} {x : Binary64} (h : ofText? cs = some x) :
    Finished cs := by
  obtain ⟨negative, body, hsplit, hbody⟩ := ofText?_cases h
  apply finished_splitSign
  rw [hsplit]
  rcases hbody with ⟨hinf, -⟩ | ⟨hnan, -⟩ | ⟨n, hn, -⟩
  · exact finished_of_isInfinityWord hinf
  · exact finished_of_map_toLower hnan (by decide)
  · exact Numeral.finished_of_read? hn

end Binary64

namespace Literal

theorem finished_of_read {cs : List Char} {x : Binary64} (h : read cs = .ok x) : Finished cs :=
  Binary64.finished_of_ofText? (ofText?_of_read h)

end Literal

end ScaleFactor
