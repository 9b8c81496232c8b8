import ScaleFactor.Proofs.Binary64.Whole
import ScaleFactor.Proofs.Literal.Alphabet

/-!
# Whole numbers as literals

A whole number can come in by two ways: as a number, which is rounded, or as the digits of a literal,
which are read as a numeral, which is rounded too. Both ways lead to the same number
(`Literal.read_toString`), whether or not rounding changes anything. That a number of 64 bits is far
from infinity keeps the literal from being out of range.
-/

namespace ScaleFactor

/-! ## Digits -/

namespace Numeral

/-- A text of digits, one at least. -/
def Digits (ds : List Char) : Prop := ds ≠ [] ∧ ∀ c ∈ ds, c.isDigit = true

instance (ds : List Char) : Decidable (Digits ds) :=
  decidable_of_iff (ds ≠ [] ∧ ds.all Char.isDigit) (and_congr_right' List.all_eq_true)

theorem digits_toDigits (n : Nat) : Digits (Nat.toDigits 10 n) :=
  ⟨Nat.toDigits_ne_nil, fun _ hc => Nat.isDigit_of_mem_toDigits (by decide) (by decide) hc⟩

theorem ofDigits_toDigits (n : Nat) : ofDigits (Nat.toDigits 10 n) = n :=
  Nat.ofDigitChars_ten_toDigits

variable {ds : List Char}

/-- Digits alone are a numeral without an exponent. -/
theorem read?_of_digits (h : Digits ds) : read? ds = some ⟨ofDigits ds, 0⟩ := by
  have htake : ds.takeWhile Char.isDigit = ds := List.takeWhile_eq_self_iff.2 h.2
  have hdrop : ds.dropWhile Char.isDigit = [] := List.dropWhile_eq_nil_iff.2 h.2
  simp [read?, htake, hdrop, decimals, exponent?, h.1]

/-- A numeral without an exponent is rounded as the whole number that it is, unless it is zero. -/
theorem round_whole (negative : Bool) {n : Nat} (hn : n ≠ 0) :
    round negative ⟨n, 0⟩ = .round negative (n * Binary64.one) 1 := by
  have hshift : n * Nat.pow 10 0 = n := Nat.mul_one n
  show (if n = 0 then _ else if 309 ≤ 0 then _ else
    Binary64.round negative (n * Nat.pow 10 0 * Binary64.one) 1) = _
  rw [if_neg hn, if_neg (by decide), hshift]

end Numeral

open Numeral (Digits)

namespace Binary64

theorem ofNat_eq_ofInt (n : Nat) : ofNat n = .ofInt n := by
  have hsign : decide ((n : Int) < 0) = false := decide_eq_false (by omega)
  rw [ofInt, hsign, Int.natAbs_natCast, ofNat]

variable {cs ds : List Char} {negative : Bool}

section NoWord

variable {c : Char} (hmem : c ∈ ds) (hc : c.isAlpha = false)
include hmem hc

/-- A text with a character that is no letter is no word. -/
theorem map_toLower_ne {word : List Char} (hword : word.all Char.isAlpha = true) :
    ds.map Char.toLower ≠ word := by
  intro h
  rw [isAlpha_of_map_toLower h hword c hmem] at hc
  cases hc

theorem isInfinityWord_eq_false : isInfinityWord ds = false := by
  rw [isInfinityWord, ← Bool.not_eq_true, List.contains_iff_mem]
  intro hword
  have hwords : infinityWords.all (·.all Char.isAlpha) = true := rfl
  exact map_toLower_ne hmem hc (List.all_eq_true.1 hwords _ hword) rfl

theorem ofText?_of_read? {n : Numeral} (hsign : splitSign cs = (negative, ds))
    (hread : Numeral.read? ds = some n) : ofText? cs = some (n.round negative) := by
  have hnan : ds.map Char.toLower ≠ nanWord := map_toLower_ne hmem hc rfl
  simp [ofText?, hsign, isInfinityWord_eq_false hmem hc, hnan, hread]

end NoWord

theorem isAlpha_eq_false_of_isDigit {c : Char} (h : c.isDigit = true) : c.isAlpha = false := by
  rw [← Bool.not_eq_true]
  intro halpha
  simp only [Char.isAlpha, Char.isUpper, Char.isLower, Char.isDigit, Bool.or_eq_true,
    Bool.and_eq_true, decide_eq_true_eq] at halpha h
  grind

theorem ofText?_of_digits (h : Digits ds) (hsign : splitSign cs = (negative, ds)) :
    ofText? cs = some (Numeral.round negative ⟨Numeral.ofDigits ds, 0⟩) := by
  obtain ⟨c, hc⟩ := List.exists_mem_of_ne_nil ds h.1
  exact ofText?_of_read? hc (isAlpha_eq_false_of_isDigit (h.2 c hc)) hsign
    (Numeral.read?_of_digits h)

theorem splitSign_of_digits (h : Digits ds) : splitSign ds = (false, ds) := by
  unfold splitSign
  split
  · exact absurd (h.2 '+' List.mem_cons_self) (by decide)
  · exact absurd (h.2 '-' List.mem_cons_self) (by decide)
  · rfl

end Binary64

/-! ## Literals -/

namespace Literal

theorem read_of_ofText? {cs : List Char} {x : Binary64} (hcs : cs ≠ [])
    (h : Binary64.ofText? cs = some x) (hx : x.isInfinite = false) : read cs = .ok x := by
  simp [read, hcs, h, hx]

theorem read_toDigits {n : Nat} (h : n ≤ Nat.pow 2 64) :
    read (Nat.toDigits 10 n) = .ok (.ofInt n) := by
  have hdigits := Numeral.digits_toDigits n
  have htext := Binary64.ofText?_of_digits hdigits (Binary64.splitSign_of_digits hdigits)
  have hround : Numeral.round false ⟨n, 0⟩ = .ofInt n := by
    rcases Nat.eq_zero_or_pos n with rfl | hpos
    · calc Numeral.round false ⟨0, 0⟩ = .zero := if_pos rfl
        _ = .ofNat 0 := Binary64.ofNat_zero.symm
        _ = .ofInt (0 : Nat) := Binary64.ofNat_eq_ofInt 0
    · rw [Numeral.round_whole false hpos.ne']
      exact Binary64.ofNat_eq_ofInt n
  rw [Numeral.ofDigits_toDigits, hround] at htext
  exact read_of_ofText? hdigits.1 htext (Binary64.isInfinite_ofInt h)

theorem read_minus_toDigits {n : Nat} (hpos : 0 < n) (h : n ≤ Nat.pow 2 64) :
    read ('-' :: Nat.toDigits 10 n) = .ok (.ofInt (-n)) := by
  have hsign : Binary64.splitSign ('-' :: Nat.toDigits 10 n) = (true, Nat.toDigits 10 n) := rfl
  have htext := Binary64.ofText?_of_digits (Numeral.digits_toDigits n) hsign
  have hround : Numeral.round true ⟨n, 0⟩ = .ofInt (-n) := by
    rw [Numeral.round_whole true hpos.ne', Binary64.ofInt, Int.natAbs_neg, Int.natAbs_natCast,
      decide_eq_true (by omega)]
  rw [Numeral.ofDigits_toDigits, hround] at htext
  refine read_of_ofText? (List.cons_ne_nil _ _) htext (Binary64.isInfinite_ofInt ?_)
  rwa [Int.natAbs_neg]

theorem toList_toString_of_nonneg {n : Int} (h : 0 ≤ n) :
    (toString n).toList = Nat.toDigits 10 n.natAbs := by
  have habs : n.toNat = n.natAbs := by omega
  rw [Int.toString_eq_repr, Int.repr_eq_if, if_pos h, Nat.repr_eq_ofList_toDigits,
    String.toList_ofList, habs]

theorem toList_toString_of_neg {n : Int} (h : n < 0) :
    (toString n).toList = '-' :: Nat.toDigits 10 n.natAbs := by
  have habs : (-n).toNat = n.natAbs := by omega
  rw [Int.toString_eq_repr, Int.repr_eq_if, if_neg (Int.not_le.2 h), Nat.repr_eq_ofList_toDigits,
    String.toList_append, String.toList_ofList, String.toList_ofList, habs]
  rfl

/-- **The text of a whole number is a literal of the number that is nearest to it.** -/
theorem read_toString {n : Int} (h : n.natAbs ≤ Nat.pow 2 64) :
    read (toString n).toList = .ok (.ofInt n) := by
  rcases Int.lt_or_le n 0 with hneg | hnonneg
  · have hread := read_minus_toDigits (Int.natAbs_pos.2 hneg.ne) h
    have hn : -(n.natAbs : Int) = n := by omega
    rw [toList_toString_of_neg hneg, hread, hn]
  · have hread := read_toDigits h
    have hn : (n.natAbs : Int) = n := by omega
    rw [toList_toString_of_nonneg hnonneg, hread, hn]

/-- A whole number of 64 bits is read back as the number nearest to it. -/
theorem read_toString_word (c : Int64) :
    read (toString c.toInt).toList = .ok (.ofInt c.toInt) := by
  have hlow := c.le_toInt
  have hhigh := c.toInt_lt
  apply read_toString
  show c.toInt.natAbs ≤ 18446744073709551616
  omega

/-- A whole number that is not negative is written without a sign. -/
theorem minus_not_mem_toString {n : Int} (h : 0 ≤ n) : '-' ∉ (toString n).toList := by
  rw [toList_toString_of_nonneg h]
  intro hmem
  exact absurd ((Numeral.digits_toDigits _).2 '-' hmem) (by decide)

end Literal

end ScaleFactor
