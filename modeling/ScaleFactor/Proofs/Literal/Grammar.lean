import ScaleFactor.Proofs.Binary64.Rational
import ScaleFactor.Proofs.Literal.Whole

/-!
# The grammar of numbers

How a number may be written, and which number that is, said without a reader. A number is a sign or
none, and behind it one of the words for infinity and for not-a-number (`IsInfinity`, `IsNaN`) or a
numeral with its exact value (`IsNumeral`). The value comes from the digits alone, each of which
counts by its place before or behind the point, and from the exponent.

The reader takes a text apart by its first character that is no sign and by the first ones that are
no digits. What it finds is what the grammar says: no word starts like a numeral, nothing starts
with a second sign, and the digits of a part end where the next part begins
(`Binary64.ofText?_of_isNumeral`, `Binary64.grammar_of_ofText?`).
-/

namespace ScaleFactor

open Binary64 (signed)
open Numeral (Digits)

/-! ## The grammar -/

namespace Literal

/-- A sign or none, and whether it is a minus. -/
inductive Sign : List Char → Bool → Prop where
  | none : Sign [] false
  | plus : Sign ['+'] false
  | minus : Sign ['-'] true

/-- The text is the word, each letter of it small or capital. -/
def InAnyCase (word : String) (text : List Char) : Prop :=
  List.Forall₂ (fun w c => c = w ∨ c = w.toUpper) word.toList text

inductive IsInfinity : List Char → Bool → Prop where
  | intro {sign body : List Char} {negative : Bool} :
    Sign sign negative → InAnyCase "inf" body ∨ InAnyCase "infinity" body →
    IsInfinity (sign ++ body) negative

inductive IsNaN : List Char → Prop where
  | intro {sign body : List Char} {negative : Bool} :
    Sign sign negative → InAnyCase "nan" body → IsNaN (sign ++ body)

def digit (c : Char) : Nat := c.toNat - '0'.toNat

/-- What digits in front of a point are worth. -/
def whole : List Char → Nat
  | [] => 0
  | c :: cs => digit c * 10 ^ cs.length + whole cs

/-- What digits behind a point are worth. -/
def fraction : List Char → ℚ
  | [] => 0
  | c :: cs => (digit c + fraction cs) / 10

/-- Digits with at most one point among them, one digit at least in all, and what they are worth. -/
inductive Coefficient : List Char → ℚ → Prop where
  | whole {ds : List Char} : Digits ds → Coefficient ds (whole ds)
  | point {ds fs : List Char} :
    Digits (ds ++ fs) → Coefficient (ds ++ '.' :: fs) (whole ds + fraction fs)

/-- The power of ten behind a coefficient, if there is one. -/
inductive Exponent : List Char → Int → Prop where
  | none : Exponent [] 0
  | some {mark : Char} {sign ds : List Char} {negative : Bool} :
    mark = 'e' ∨ mark = 'E' → Sign sign negative → Digits ds →
    Exponent (mark :: (sign ++ ds)) (if negative then -(whole ds : Int) else whole ds)

inductive Unsigned : List Char → ℚ → Prop where
  | intro {cs es : List Char} {m : ℚ} {e : Int} :
    Coefficient cs m → Exponent es e → Unsigned (cs ++ es) (m * 10 ^ e)

/-- A numeral, whether it has a minus, and its exact value. -/
inductive IsNumeral : List Char → Bool → ℚ → Prop where
  | intro {sign body : List Char} {negative : Bool} {q : ℚ} :
    Sign sign negative → Unsigned body q → IsNumeral (sign ++ body) negative (signed negative q)

/-! ## Signs and words -/

/-- No sign stands in front. -/
def Bare (body : List Char) : Prop := ∀ c ∈ body.head?, c ≠ '+' ∧ c ≠ '-'

end Literal

open Literal (Sign Bare InAnyCase)

namespace Binary64

theorem exists_sign_append (cs : List Char) :
    ∃ sign, Sign sign (splitSign cs).1 ∧ cs = sign ++ (splitSign cs).2 := by
  unfold splitSign
  split
  · exact ⟨_, .plus, rfl⟩
  · exact ⟨_, .minus, rfl⟩
  · exact ⟨_, .none, rfl⟩

theorem splitSign_of_sign {sign body : List Char} {negative : Bool} (h : Sign sign negative)
    (hbody : Bare body) : splitSign (sign ++ body) = (negative, body) := by
  cases h with
  | plus => rfl
  | minus => rfl
  | none =>
    rw [List.nil_append]
    unfold splitSign
    split
    · exact absurd rfl (hbody '+' rfl).1
    · exact absurd rfl (hbody '-' rfl).2
    · rfl

end Binary64

namespace Literal

theorem toLower_eq_iff {w c : Char} (hw : w.isLower = true) :
    c.toLower = w ↔ c = w ∨ c = w.toUpper := by
  have hlower : w.toLower = w :=
    Char.toLower_eq_of_not_isUpper (Char.not_isUpper_of_isLower hw)
  constructor
  · rintro rfl
    by_cases hc : c.isUpper = true
    · rw [Char.toUpper_toLower_eq_toUpper,
        Char.toUpper_eq_of_not_isLower (Char.not_isLower_of_isUpper hc)]
      exact .inr rfl
    · exact .inl (Char.toLower_eq_of_not_isUpper hc).symm
  · rintro (rfl | rfl)
    · exact hlower
    · rw [Char.toLower_toUpper_eq_toLower, hlower]

theorem inAnyCase_iff {word : String} (hword : word.toList.all Char.isLower = true)
    {text : List Char} : InAnyCase word text ↔ text.map Char.toLower = word.toList := by
  unfold InAnyCase
  generalize word.toList = ws at hword
  induction ws generalizing text with
  | nil => cases text <;> simp
  | cons w ws ih =>
    rw [List.all_cons, Bool.and_eq_true] at hword
    cases text with
    | nil => simp
    | cons c cs =>
      rw [List.forall₂_cons, List.map_cons, List.cons.injEq, ih hword.2, toLower_eq_iff hword.1]

theorem isInfinityWord_iff {body : List Char} : Binary64.isInfinityWord body = true ↔
    InAnyCase "inf" body ∨ InAnyCase "infinity" body := by
  have hinf : "inf".toList = ['i', 'n', 'f'] := by decide
  have hinfinity : "infinity".toList = ['i', 'n', 'f', 'i', 'n', 'i', 't', 'y'] := by decide
  rw [inAnyCase_iff (by decide), inAnyCase_iff (by decide), hinf, hinfinity,
    Binary64.isInfinityWord, List.contains_iff_mem]
  simp [Binary64.infinityWords]

theorem map_toLower_eq_nanWord_iff {body : List Char} :
    body.map Char.toLower = Binary64.nanWord ↔ InAnyCase "nan" body := by
  rw [inAnyCase_iff (by decide)]
  exact Iff.rfl

/-- A word starts with a letter, so with no sign. -/
theorem bare_of_map_toLower {body word : List Char} (h : body.map Char.toLower = word)
    (hword : word.all Char.isAlpha = true) : Bare body := by
  intro c hc
  have halpha := Binary64.isAlpha_of_map_toLower h hword c (List.mem_of_mem_head? hc)
  constructor
  · rintro rfl
    cases halpha
  · rintro rfl
    cases halpha

theorem bare_of_isInfinityWord {body : List Char} (h : Binary64.isInfinityWord body = true) :
    Bare body := by
  have hmem : body.map Char.toLower ∈ Binary64.infinityWords := List.contains_iff_mem.1 h
  have hall : Binary64.infinityWords.all (·.all Char.isAlpha) = true := rfl
  exact bare_of_map_toLower rfl (List.all_eq_true.1 hall _ hmem)

/-! ## Digits -/

theorem foldl_digits (n : Nat) (ds : List Char) :
    ds.foldl (fun n c => 10 * n + (c.toNat - '0'.toNat)) n = n * 10 ^ ds.length + whole ds := by
  induction ds generalizing n with
  | nil => simp [whole]
  | cons c cs ih =>
    rw [List.foldl_cons, ih, whole, digit, List.length_cons]
    ring

theorem ofDigits_eq_whole (ds : List Char) : Numeral.ofDigits ds = whole ds := by
  rw [Numeral.ofDigits, foldl_digits, Nat.zero_mul, Nat.zero_add]

theorem whole_append (ds fs : List Char) :
    whole (ds ++ fs) = whole ds * 10 ^ fs.length + whole fs := by
  induction ds with
  | nil => simp [whole]
  | cons c cs ih =>
    rw [List.cons_append, whole, whole, ih, List.length_append]
    ring

/-- Digits behind a point are worth what they would be in front of it, moved by as many places. -/
theorem fraction_mul (fs : List Char) : fraction fs * 10 ^ fs.length = whole fs := by
  induction fs with
  | nil => simp [fraction, whole]
  | cons c cs ih =>
    rw [fraction, whole, List.length_cons, pow_succ]
    push_cast
    rw [← ih]
    ring

end Literal

open Literal (Coefficient Exponent Unsigned)

namespace Numeral

/-- The exact value of a numeral. -/
def value (x : Numeral) : ℚ := x.coefficient * 10 ^ x.exponent

theorem value_of_digits (ds fs : List Char) (e : Int) :
    value ⟨ofDigits (ds ++ fs), e - fs.length⟩ =
      (Literal.whole ds + Literal.fraction fs) * 10 ^ e := by
  have hpow : (10 : ℚ) ^ fs.length ≠ 0 := pow_ne_zero _ (by norm_num)
  rw [value, Literal.ofDigits_eq_whole, Literal.whole_append, zpow_sub₀ (by norm_num), zpow_natCast]
  push_cast
  rw [← Literal.fraction_mul fs]
  field_simp

/-! ## Reading a numeral -/

variable {cs ds es sign : List Char} {negative : Bool} {e : Int} {q : ℚ} {x : Numeral}

theorem digits?_eq_some_iff {n : Nat} :
    digits? ds = some n ↔ Digits ds ∧ n = Literal.whole ds := by
  rw [← Literal.ofDigits_eq_whole]
  unfold digits? Digits
  split
  · next h =>
    constructor
    · intro heq
      cases heq
      exact ⟨⟨h.1, List.all_eq_true.1 h.2⟩, rfl⟩
    · rintro ⟨-, rfl⟩
      rfl
  · next h =>
    refine ⟨nofun, ?_⟩
    rintro ⟨hds, -⟩
    exact absurd ⟨hds.1, List.all_eq_true.2 hds.2⟩ h

theorem bare_of_digits (h : Digits ds) : Bare ds := by
  intro c hc
  have hdigit := h.2 c (List.mem_of_mem_head? hc)
  constructor
  · rintro rfl
    cases hdigit
  · rintro rfl
    cases hdigit

theorem signedDigits?_of_bare (h : Bare cs) : signedDigits? cs = (digits? cs).map Int.ofNat := by
  unfold signedDigits?
  split
  · exact absurd rfl (h '+' rfl).1
  · exact absurd rfl (h '-' rfl).2
  · rfl

theorem map_digits?_eq_some_iff {f : Nat → Int} :
    (digits? ds).map f = some e ↔ Digits ds ∧ e = f (Literal.whole ds) := by
  rw [Option.map_eq_some_iff]
  constructor
  · rintro ⟨n, hn, rfl⟩
    obtain ⟨hds, rfl⟩ := digits?_eq_some_iff.1 hn
    exact ⟨hds, rfl⟩
  · rintro ⟨hds, rfl⟩
    exact ⟨_, digits?_eq_some_iff.2 ⟨hds, rfl⟩, rfl⟩

theorem signedDigits?_eq_some_iff : signedDigits? cs = some e ↔
    ∃ sign negative ds, Sign sign negative ∧ Digits ds ∧ cs = sign ++ ds ∧
      e = if negative then -(Literal.whole ds : Int) else Literal.whole ds := by
  constructor
  · intro h
    unfold signedDigits? at h
    split at h
    · obtain ⟨hds, rfl⟩ := map_digits?_eq_some_iff.1 h
      exact ⟨_, _, _, .plus, hds, rfl, rfl⟩
    · obtain ⟨hds, rfl⟩ := map_digits?_eq_some_iff.1 h
      exact ⟨_, _, _, .minus, hds, rfl, rfl⟩
    · obtain ⟨hds, rfl⟩ := map_digits?_eq_some_iff.1 h
      exact ⟨_, _, _, .none, hds, rfl, rfl⟩
  · rintro ⟨sign, negative, ds, hsign, hds, rfl, rfl⟩
    cases hsign with
    | none =>
      rw [List.nil_append, signedDigits?_of_bare (bare_of_digits hds)]
      exact map_digits?_eq_some_iff.2 ⟨hds, rfl⟩
    | plus => exact map_digits?_eq_some_iff.2 ⟨hds, rfl⟩
    | minus => exact map_digits?_eq_some_iff.2 ⟨hds, rfl⟩

theorem exponent?_eq_some_iff : exponent? cs = some e ↔ Exponent cs e := by
  constructor
  · intro h
    cases cs with
    | nil =>
      cases h
      exact .none
    | cons c cs =>
      rw [exponent?] at h
      split at h
      · next hmark =>
        obtain ⟨sign, negative, ds, hsign, hds, rfl, rfl⟩ := signedDigits?_eq_some_iff.1 h
        exact .some hmark hsign hds
      · cases h
  · intro h
    cases h with
    | none => rfl
    | some hmark hsign hds =>
      rw [exponent?, if_pos hmark]
      exact signedDigits?_eq_some_iff.2 ⟨_, _, _, hsign, hds, rfl, rfl⟩

/-- An exponent begins with neither a digit nor a point, so the coefficient ends in front of it. -/
theorem head_of_exponent (h : Exponent es e) : ∀ c ∈ es.head?, c.isDigit = false ∧ c ≠ '.' := by
  intro c hc
  cases h with
  | none => cases hc
  | some hmark =>
    cases hc
    rcases hmark with rfl | rfl
    · decide
    · decide

theorem span_digits (hds : ∀ c ∈ ds, c.isDigit = true) (hes : ∀ c ∈ es.head?, c.isDigit = false) :
    (ds ++ es).takeWhile Char.isDigit = ds ∧ (ds ++ es).dropWhile Char.isDigit = es := by
  rw [List.takeWhile_append_of_pos hds, List.dropWhile_append_of_pos hds]
  cases es with
  | nil => simp
  | cons c cs => simp [hes c rfl]

theorem decimals_of_head (h : ∀ c ∈ cs.head?, c ≠ '.') : decimals cs = ([], cs) := by
  unfold decimals
  split
  · exact absurd rfl (h '.' rfl)
  · rfl

theorem read?_eq_some_iff : read? cs = some x ↔
    ∃ fs es e, decimals (cs.dropWhile Char.isDigit) = (fs, es) ∧
      cs.takeWhile Char.isDigit ++ fs ≠ [] ∧ exponent? es = some e ∧
      x = ⟨ofDigits (cs.takeWhile Char.isDigit ++ fs), e - fs.length⟩ := by
  constructor
  · intro h
    simp only [read?] at h
    split at h
    · cases h
    · next hne =>
      obtain ⟨e, he, rfl⟩ := Option.map_eq_some_iff.1 h
      exact ⟨_, _, e, rfl, hne, he, rfl⟩
  · rintro ⟨fs, es, e, hdecimals, hne, he, rfl⟩
    simp only [read?, hdecimals, if_neg hne, he, Option.map_some]

theorem exists_read?_of_unsigned (h : Unsigned cs q) : ∃ x, read? cs = some x ∧ x.value = q := by
  obtain @⟨cs, es, m, e, hm, he⟩ := h
  have hhead := head_of_exponent he
  have hexponent := exponent?_eq_some_iff.2 he
  cases hm with
  | whole hds =>
    obtain ⟨htake, hdrop⟩ := span_digits hds.2 fun c hc => (hhead c hc).1
    have hdecimals := decimals_of_head fun c hc => (hhead c hc).2
    refine ⟨⟨ofDigits (cs ++ []), e - ([] : List Char).length⟩, ?_, ?_⟩
    · refine read?_eq_some_iff.2 ⟨[], es, e, ?_, ?_, hexponent, ?_⟩
      · rw [hdrop, hdecimals]
      · rw [htake, List.append_nil]
        exact hds.1
      · rw [htake]
    · rw [value_of_digits cs [] e, Literal.fraction, add_zero]
  | @point ds fs hds =>
    obtain ⟨hwhole, hfraction⟩ := List.forall_mem_append.1 hds.2
    have hpoint : ∀ c ∈ ('.' :: (fs ++ es)).head?, c.isDigit = false := by
      rintro c ⟨⟩
      rfl
    obtain ⟨htake, hdrop⟩ := span_digits hwhole hpoint
    obtain ⟨htake', hdrop'⟩ := span_digits hfraction fun c hc => (hhead c hc).1
    refine ⟨⟨ofDigits (ds ++ fs), e - fs.length⟩, ?_, value_of_digits ds fs e⟩
    rw [List.append_assoc, List.cons_append]
    refine read?_eq_some_iff.2 ⟨fs, es, e, ?_, ?_, hexponent, ?_⟩
    · rw [hdrop, decimals, htake', hdrop']
    · rw [htake]
      exact hds.1
    · rw [htake]

theorem unsigned_of_read? (h : read? cs = some x) : Unsigned cs x.value := by
  obtain ⟨fs, es, e, hdecimals, hne, he, rfl⟩ := read?_eq_some_iff.1 h
  have hexponent := exponent?_eq_some_iff.1 he
  have hcs := List.takeWhile_append_dropWhile (p := Char.isDigit) (l := cs)
  have hwhole : ∀ c ∈ cs.takeWhile Char.isDigit, c.isDigit = true :=
    fun c hc => List.mem_takeWhile_imp hc
  -- from here on only matters that these are digits and that the rest follows them
  generalize cs.takeWhile Char.isDigit = ds at hcs hne hwhole ⊢
  generalize cs.dropWhile Char.isDigit = rest at hcs hdecimals
  rw [value_of_digits]
  unfold decimals at hdecimals
  split at hdecimals
  · next rest =>
    cases hdecimals
    have hfraction : ∀ c ∈ rest.takeWhile Char.isDigit, c.isDigit = true :=
      fun c hc => List.mem_takeWhile_imp hc
    have hcoefficient : Coefficient (ds ++ '.' :: rest.takeWhile Char.isDigit) _ :=
      .point ⟨hne, List.forall_mem_append.2 ⟨hwhole, hfraction⟩⟩
    have htext :
        cs = (ds ++ '.' :: rest.takeWhile Char.isDigit) ++ rest.dropWhile Char.isDigit := by
      rw [List.append_assoc, List.cons_append, List.takeWhile_append_dropWhile, hcs]
    rw [htext]
    exact .intro hcoefficient hexponent
  · cases hdecimals
    rw [List.append_nil] at hne
    rw [Literal.fraction, add_zero, ← hcs]
    exact .intro (.whole ⟨hne, hwhole⟩) hexponent

/-- A numeral starts with a digit or a point, which are no letters and no signs. -/
theorem head_of_unsigned (h : Unsigned cs q) :
    ∃ c rest, cs = c :: rest ∧ (c.isDigit = true ∨ c = '.') := by
  obtain @⟨cs, es, m, e, hm, -⟩ := h
  cases hm with
  | whole hds =>
    obtain ⟨c, rest, rfl⟩ := List.exists_cons_of_ne_nil hds.1
    exact ⟨c, rest ++ es, rfl, .inl (hds.2 c List.mem_cons_self)⟩
  | @point ds fs hds =>
    cases ds with
    | nil => exact ⟨'.', fs ++ es, rfl, .inr rfl⟩
    | cons c ds => exact ⟨c, (ds ++ '.' :: fs) ++ es, rfl, .inl (hds.2 c List.mem_cons_self)⟩

theorem bare_of_unsigned (h : Unsigned cs q) : Bare cs := by
  obtain ⟨c, rest, rfl, hc⟩ := head_of_unsigned h
  rintro d ⟨⟩
  constructor
  · rintro rfl
    simp [Char.isDigit] at hc
  · rintro rfl
    simp [Char.isDigit] at hc

theorem exists_not_isAlpha_of_unsigned (h : Unsigned cs q) : ∃ c ∈ cs, c.isAlpha = false := by
  obtain ⟨c, rest, rfl, hc⟩ := head_of_unsigned h
  refine ⟨c, List.mem_cons_self, ?_⟩
  rcases hc with hdigit | rfl
  · exact Binary64.isAlpha_eq_false_of_isDigit hdigit
  · rfl

end Numeral

/-! ## Reading a number -/

namespace Binary64

open Literal (IsInfinity IsNaN IsNumeral)

variable {text : List Char} {negative : Bool} {q : ℚ} {x : Binary64}

theorem ofText?_of_isInfinity (h : IsInfinity text negative) :
    ofText? text = some (infinite negative) := by
  obtain ⟨hsign, hbody⟩ := h
  have hword := Literal.isInfinityWord_iff.2 hbody
  simp [ofText?, splitSign_of_sign hsign (Literal.bare_of_isInfinityWord hword), hword]

theorem ofText?_of_isNaN (h : IsNaN text) : ofText? text = some nan := by
  obtain @⟨sign, body, negative, hsign, hbody⟩ := h
  have hword := Literal.map_toLower_eq_nanWord_iff.2 hbody
  have hbare := Literal.bare_of_map_toLower hword rfl
  have hinfinity : isInfinityWord body = false := by
    rw [isInfinityWord, hword]
    decide
  simp [ofText?, splitSign_of_sign hsign hbare, hinfinity, hword]

/-- A numeral is read as its exact value, rounded. -/
theorem ofText?_of_isNumeral (h : IsNumeral text negative q) :
    ∃ n : Numeral, ofText? text = some (n.round negative) ∧ q = signed negative n.value := by
  obtain ⟨hsign, hbody⟩ := h
  obtain ⟨n, hread, rfl⟩ := Numeral.exists_read?_of_unsigned hbody
  obtain ⟨c, hmem, hc⟩ := Numeral.exists_not_isAlpha_of_unsigned hbody
  have hsplit := splitSign_of_sign hsign (Numeral.bare_of_unsigned hbody)
  exact ⟨n, ofText?_of_read? hmem hc hsplit hread, rfl⟩

/-- Nothing is read but what the grammar allows. -/
theorem grammar_of_ofText? (h : ofText? text = some x) :
    (∃ s, IsInfinity text s ∧ x = infinite s) ∨ (IsNaN text ∧ x = nan) ∨
      ∃ (s : Bool) (n : Numeral), IsNumeral text s (signed s n.value) ∧ x = n.round s := by
  obtain ⟨s, body, hsplit, hbody⟩ := ofText?_cases h
  obtain ⟨sign, hsign, htext⟩ := exists_sign_append text
  rw [hsplit] at hsign htext
  rw [htext]
  rcases hbody with ⟨hword, rfl⟩ | ⟨hword, rfl⟩ | ⟨n, hread, rfl⟩
  · exact .inl ⟨s, .intro hsign (Literal.isInfinityWord_iff.1 hword), rfl⟩
  · exact .inr (.inl ⟨.intro hsign (Literal.map_toLower_eq_nanWord_iff.1 hword), rfl⟩)
  · exact .inr (.inr ⟨s, n, .intro hsign (Numeral.unsigned_of_read? hread), rfl⟩)

end Binary64

end ScaleFactor
