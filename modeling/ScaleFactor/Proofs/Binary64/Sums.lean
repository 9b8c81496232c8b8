import ScaleFactor.Proofs.Binary64.Nearest
import ScaleFactor.Proofs.Binary64.Value

/-!
# Sums

A sum of many numbers is rounded after every addition. Beside it stands the sum that is never rounded:
whole numbers of least magnitudes, the two infinities, and no number where opposite infinities meet
(`Extended`). That one is a commutative monoid, so it does not depend on the order.

An addition is the exact one and a rounding behind it (`add_eq_rounded`). So a sum in which all that is
rounded was a number already is the exact sum (`extended_foldl_add`), as it is with whole numbers up to
`2 ^ 53` (`foldl_add_whole`). And where the exact sum is no number, the rounded one is a NaN in any order
(`foldl_add_eq_nan`).
-/

namespace ScaleFactor.Binary64

/-! ## Sums without rounding -/

/-- The exact value of a number, in least magnitudes where it is finite. -/
inductive Extended where
  | nan
  | infinite (negative : Bool)
  | finite (a : Int)
  deriving DecidableEq, Repr

namespace Extended

def add : Extended → Extended → Extended
  | nan, _ => nan
  | _, nan => nan
  | infinite s, infinite t => if s = t then infinite s else nan
  | infinite s, finite _ => infinite s
  | finite _, infinite t => infinite t
  | finite a, finite b => finite (a + b)

instance : Add Extended := ⟨add⟩

instance : Zero Extended := ⟨finite 0⟩

instance : AddCommMonoid Extended where
  nsmul := nsmulRec
  add_assoc := by
    intro x y z
    show add (add x y) z = add x (add y z)
    cases x <;> cases y <;> cases z <;> grind [add]
  zero_add := by
    intro x
    show add (finite 0) x = x
    cases x <;> simp [add]
  add_zero := by
    intro x
    show add x (finite 0) = x
    cases x <;> simp [add]
  add_comm := by
    intro x y
    show add x y = add y x
    cases x <;> cases y <;> grind [add]

@[simp] theorem finite_add_finite (a b : Int) : finite a + finite b = finite (a + b) := rfl

@[simp] theorem add_nan (x : Extended) : x + nan = nan := add_comm x nan

/-- The number that an exact value is rounded to. -/
def rounded : Extended → Binary64
  | nan => .nan
  | infinite s => .infinite s
  | finite a => .round (a < 0) a.natAbs 1

end Extended

/-- The exact value. -/
def extended : Binary64 → Extended
  | nan => .nan
  | number s p => if p.val = top then .infinite s else .finite (signedUnits s p)

theorem extended_of_eq_top {s : Bool} {p : Fin (top + 1)} (h : p.val = top) :
    (number s p).extended = .infinite s := if_pos h

theorem extended_of_ne_top {s : Bool} {p : Fin (top + 1)} (h : p.val ≠ top) :
    (number s p).extended = .finite (signedUnits s p) := if_neg h

theorem extended_zero : zero.extended = 0 := by
  rw [zero, signedZero, extended_of_ne_top (by decide)]
  exact congrArg Extended.finite (congrArg Int.ofNat units_zero)

theorem signedUnits_eq_zero_iff {s : Bool} {p : Nat} : signedUnits s p = 0 ↔ p = 0 := by
  have hp := units_le_units_iff (p := p) (q := 0)
  rw [units_zero] at hp
  unfold signedUnits
  split <;> omega

theorem decide_signedUnits_neg {s : Bool} {p : Nat} (h : p ≠ 0) :
    decide (signedUnits s p < 0) = s := by
  have hpos := units_pos h
  unfold signedUnits
  cases s <;> simp [hpos]

theorem dropZeroSign_of_ne_zero {s : Bool} {p : Fin (top + 1)} (h : p.val ≠ 0) :
    (number s p).dropZeroSign = number s p := by
  simp [dropZeroSign, isZero, h]

theorem infinite_eq_number {s : Bool} {p : Fin (top + 1)} (h : p.val = top) :
    infinite s = number s p := congrArg (number s) (Fin.ext h.symm)

theorem round_zero : round false 0 1 = zero := by
  have hzero := ofNat_zero
  rwa [ofNat, Nat.zero_mul] at hzero

/-- The exact value of a number is rounded to the number itself. -/
theorem rounded_extended (x : Binary64) : x.extended.rounded = x.dropZeroSign := by
  cases x with
  | nan => rfl
  | number s p =>
    by_cases htop : p.val = top
    · have hne : p.val ≠ 0 := by
        rw [htop]
        decide
      rw [extended_of_eq_top htop, dropZeroSign_of_ne_zero hne]
      exact infinite_eq_number htop
    · rw [extended_of_ne_top htop]
      show round _ (signedUnits s p).natAbs 1 = _
      by_cases hzero : p.val = 0
      · have hunits : signedUnits s p = 0 := signedUnits_eq_zero_iff.2 hzero
        rw [hunits, number_of_val_eq_zero hzero]
        exact round_zero
      · rw [natAbs_signedUnits, round_units, dropZeroSign_of_ne_zero hzero]
        rw [decide_signedUnits_neg hzero]

/-! ## Additions -/

/-- Two numbers whose exact sum is zero are not both negative, negative zeros aside. -/
theorem and_eq_false_of_sum_eq_zero {s t : Bool} {p q : Fin (top + 1)}
    (hp : (number s p).dropZeroSign = number s p)
    (h : signedUnits s p + signedUnits t q = 0) : (s && t) = false := by
  cases s with
  | false => rfl
  | true =>
    cases t with
    | false => rfl
    | true =>
      have hunits : units p = 0 := by
        unfold signedUnits at h
        simp only [if_true] at h
        omega
      have hzero : p.val = 0 := by
        by_contra hne
        exact (units_pos hne).ne' hunits
      rw [number_of_val_eq_zero hzero] at hp
      cases hp

/-- An addition to a number other than a negative zero is an exact addition and one rounding. -/
theorem add_eq_rounded {x : Binary64} (hx : x.dropZeroSign = x) (y : Binary64) :
    x + y = (x.extended + y.extended).rounded := by
  show add x y = (x.extended.add y.extended).rounded
  cases x with
  | nan => rfl
  | number s p =>
    cases y with
    | nan => cases (number s p).extended <;> rfl
    | number t q =>
      by_cases hp : p.val = top <;> by_cases hq : q.val = top
      · rw [extended_of_eq_top hp, extended_of_eq_top hq]
        by_cases hst : s = t
        · simp [add, Extended.add, hp, hst, Extended.rounded, infinite_eq_number hp]
        · simp [add, Extended.add, hp, hq, hst, Extended.rounded]
      · rw [extended_of_eq_top hp, extended_of_ne_top hq]
        simp [add, Extended.add, hp, hq, Extended.rounded, infinite_eq_number hp]
      · rw [extended_of_ne_top hp, extended_of_eq_top hq]
        simp [add, Extended.add, hp, hq, Extended.rounded, infinite_eq_number hq]
      · rw [extended_of_ne_top hp, extended_of_ne_top hq]
        simp only [add, if_neg hp, if_neg hq, Extended.add, Extended.rounded]
        split
        · next hsum =>
          rw [and_eq_false_of_sum_eq_zero hx hsum, hsum]
          exact round_zero.symm
        · rfl

/-- Nothing but zero is rounded to zero. -/
theorem nearestPlace_ne_zero {n : Nat} (h : n ≠ 0) : nearestPlace n 1 ≠ 0 := by
  have hone : nearestPlace 1 1 = 1 := by
    have hunits := nearestPlace_units (p := 1) (by decide)
    rwa [units_of_lt (by decide)] at hunits
  have hmono := nearestPlace_mono (Nat.one_le_iff_ne_zero.2 h) 1
  omega

theorem dropZeroSign_rounded (e : Extended) : e.rounded.dropZeroSign = e.rounded := by
  cases e with
  | nan => rfl
  | infinite s => exact dropZeroSign_of_ne_zero (by decide)
  | finite a =>
    by_cases ha : a = 0
    · have hzero : (Extended.finite a).rounded = zero := by
        rw [ha]
        exact round_zero
      rw [hzero]
      rfl
    · exact dropZeroSign_of_ne_zero (nearestPlace_ne_zero (Int.natAbs_ne_zero.2 ha))

theorem extended_dropZeroSign (x : Binary64) : x.dropZeroSign.extended = x.extended := by
  unfold dropZeroSign
  split
  · next hzero =>
    cases x with
    | nan => cases hzero
    | number s p =>
      have hp : p.val = 0 := by simpa [isZero] using hzero
      rw [extended_zero, number_of_val_eq_zero hp]
      cases s <;> rfl
  · rfl

/-- Whether an exact value is that of a number, so that it needs no rounding. -/
def Extended.Fits (e : Extended) : Prop := ∃ z : Binary64, z.extended = e

theorem Extended.Fits.extended_rounded {e : Extended} (h : e.Fits) : e.rounded.extended = e := by
  obtain ⟨z, rfl⟩ := h
  rw [Binary64.rounded_extended, extended_dropZeroSign]

instance (e : Extended) : Decidable e.Fits :=
  decidable_of_iff (e.rounded.extended = e) ⟨fun h => ⟨_, h⟩, fun h => h.extended_rounded⟩

theorem extended_eq_nan_iff {x : Binary64} : x.extended = .nan ↔ x = nan := by
  cases x with
  | nan => simp [extended]
  | number s p =>
    by_cases htop : p.val = top
    · simp [extended_of_eq_top htop]
    · simp [extended_of_ne_top htop]

theorem extended_infinite (s : Bool) : (infinite s).extended = .infinite s :=
  extended_of_eq_top rfl

theorem Extended.rounded_add_eq_nan {e r : Extended} (h : e + r = nan) :
    e.rounded.extended + r = nan := by
  cases e with
  | nan => rfl
  | infinite s => rwa [rounded, extended_infinite]
  | finite a =>
    -- a finite value leaves a sum to any number
    cases r with
    | nan => exact add_nan _
    | infinite t => cases h
    | finite b => cases h

/-! ## Running sums -/

/-- No addition has to round when numbers are added to `x` one after the other. -/
inductive Unrounded : Binary64 → List Binary64 → Prop where
  | nil (x : Binary64) : Unrounded x []
  | cons {x y : Binary64} {ys : List Binary64} :
    (x.extended + y.extended).Fits → Unrounded (x + y) ys → Unrounded x (y :: ys)

theorem unrounded_cons_iff {x y : Binary64} {ys : List Binary64} :
    Unrounded x (y :: ys) ↔ (x.extended + y.extended).Fits ∧ Unrounded (x + y) ys :=
  ⟨fun | .cons hfits hrest => ⟨hfits, hrest⟩, fun ⟨hfits, hrest⟩ => .cons hfits hrest⟩

instance decidableUnrounded : ∀ (x : Binary64) (ys : List Binary64), Decidable (Unrounded x ys)
  | x, [] => isTrue (.nil x)
  | x, y :: ys =>
    have := decidableUnrounded (x + y) ys
    decidable_of_iff _ unrounded_cons_iff.symm

section Running

variable {x : Binary64} (hx : x.dropZeroSign = x) {ys : List Binary64}
include hx

theorem dropZeroSign_add (y : Binary64) : (x + y).dropZeroSign = x + y := by
  rw [add_eq_rounded hx, dropZeroSign_rounded]

theorem dropZeroSign_foldl_add (ys : List Binary64) :
    (ys.foldl (· + ·) x).dropZeroSign = ys.foldl (· + ·) x := by
  induction ys generalizing x with
  | nil => exact hx
  | cons y ys ih => exact ih (dropZeroSign_add hx y)

/-- A running sum that is never rounded is the exact sum. -/
theorem extended_foldl_add (h : Unrounded x ys) :
    (ys.foldl (· + ·) x).extended = x.extended + (ys.map extended).sum := by
  induction h with
  | nil x => rw [List.map_nil, List.sum_nil, add_zero, List.foldl_nil]
  | @cons x y ys hfits _ ih =>
    rw [List.foldl_cons, ih (dropZeroSign_add hx y), add_eq_rounded hx, hfits.extended_rounded,
      List.map_cons, List.sum_cons, add_assoc]

/-- Where the exact sum is no number, neither is the running sum, whatever is rounded on the way. -/
theorem foldl_add_eq_nan (h : x.extended + (ys.map extended).sum = .nan) :
    ys.foldl (· + ·) x = nan := by
  induction ys generalizing x with
  | nil =>
    rw [List.map_nil, List.sum_nil, add_zero] at h
    exact extended_eq_nan_iff.1 h
  | cons y ys ih =>
    rw [List.foldl_cons]
    refine ih (dropZeroSign_add hx y) ?_
    rw [List.map_cons, List.sum_cons, ← add_assoc] at h
    rw [add_eq_rounded hx]
    exact Extended.rounded_add_eq_nan h

end Running

theorem dropZeroSign_zero : zero.dropZeroSign = zero := rfl

/-- As a number is its own sum, two numbers have one that is rounded once. -/
theorem foldl_add_of_length_le_two {ys : List Binary64} (h : ys.length ≤ 2) :
    ys.foldl (· + ·) zero = (ys.map extended).sum.rounded := by
  have hone (y : Binary64) : zero + y = y.extended.rounded := by
    rw [add_eq_rounded dropZeroSign_zero, extended_zero, zero_add]
  match ys with
  | [] => exact (rounded_extended zero).symm
  | [y] => simp only [List.foldl_cons, List.foldl_nil, List.map_cons, List.map_nil, List.sum_cons,
      List.sum_nil, add_zero, hone]
  | [y, z] =>
    simp only [List.foldl_cons, List.foldl_nil, List.map_cons, List.map_nil, List.sum_cons,
      List.sum_nil, add_zero]
    rw [add_eq_rounded (dropZeroSign_add dropZeroSign_zero y), hone, rounded_extended,
      extended_dropZeroSign]

/-- A NaN and opposite infinities leave no sum. -/
theorem sum_extended_eq_nan {ys : List Binary64}
    (h : nan ∈ ys ∨ infinite false ∈ ys ∧ infinite true ∈ ys) :
    (ys.map extended).sum = .nan := by
  have hmem {y : Binary64} (hy : y ∈ ys) : y.extended ∈ ys.map extended := List.mem_map_of_mem hy
  rcases h with hnan | ⟨hpos, hneg⟩
  · rw [← List.sum_erase (hmem hnan)]
    rfl
  · have hother : (infinite true).extended ∈ (ys.map extended).erase (infinite false).extended :=
      (List.mem_erase_of_ne (by decide)).2 (hmem hneg)
    rw [← List.sum_erase (hmem hpos), ← List.sum_erase hother, ← add_assoc]
    rfl

/-- Where a sum does not depend on the order: two numbers at most, numbers without a sum, and numbers
that are added without rounding in both orders. -/
theorem foldl_add_perm {ys zs : List Binary64} (hperm : ys.Perm zs)
    (h : ys.length ≤ 2 ∨ nan ∈ ys ∨ infinite false ∈ ys ∧ infinite true ∈ ys ∨
      Unrounded zero ys ∧ Unrounded zero zs) :
    ys.foldl (· + ·) zero = zs.foldl (· + ·) zero := by
  have hzero := dropZeroSign_zero
  have hexact : zero.extended + (ys.map extended).sum = zero.extended + (zs.map extended).sum :=
    congrArg (zero.extended + ·) (hperm.map extended).sum_eq
  -- where the sums follow the exact ones, these do not depend on the order
  have hnan (hsum : (ys.map extended).sum = .nan) :
      ys.foldl (· + ·) zero = zs.foldl (· + ·) zero := by
    have hys : zero.extended + (ys.map extended).sum = .nan := by rw [hsum, Extended.add_nan]
    rw [foldl_add_eq_nan hzero hys, foldl_add_eq_nan hzero (hexact ▸ hys)]
  rcases h with hshort | h | h | ⟨hys, hzs⟩
  · rw [foldl_add_of_length_le_two hshort, foldl_add_of_length_le_two (hperm.length_eq ▸ hshort),
      (hperm.map extended).sum_eq]
  · exact hnan (sum_extended_eq_nan (.inl h))
  · exact hnan (sum_extended_eq_nan (.inr h))
  · rw [← dropZeroSign_foldl_add hzero ys, ← dropZeroSign_foldl_add hzero zs, ← rounded_extended,
      ← rounded_extended, extended_foldl_add hzero hys, extended_foldl_add hzero hzs, hexact]

/-! ## Sums of whole numbers -/

/-- A whole number is rounded as such. -/
theorem rounded_whole (m : Int) : (Extended.finite (m * one)).rounded = ofInt m := by
  rw [Extended.rounded, natAbs_mul_one, ofInt]
  simp only [mul_neg_iff_left one_pos]

theorem ofInt_zero : ofInt 0 = zero := by
  rw [ofInt, Int.natAbs_zero, Nat.zero_mul]
  exact round_zero

theorem dropZeroSign_ofInt (m : Int) : (ofInt m).dropZeroSign = ofInt m := by
  rw [← rounded_whole, dropZeroSign_rounded]

/-- A whole number up to `2 ^ 53` of either sign is a number of just that value. -/
theorem exists_ofInt_eq {m : Int} (h : m.natAbs ≤ exactLimit) :
    ∃ p : Fin (top + 1), p.val ≠ top ∧ units p = m.natAbs * one ∧ ofInt m = number (m < 0) p := by
  obtain ⟨p, hp, hunits⟩ := exists_units_eq h
  refine ⟨⟨p, Nat.lt_succ_of_lt hp⟩, hp.ne, hunits, ?_⟩
  rw [ofInt, ← hunits]
  exact round_units _ ⟨p, Nat.lt_succ_of_lt hp⟩

theorem extended_ofInt {m : Int} (h : m.natAbs ≤ exactLimit) :
    (ofInt m).extended = .finite (m * one) := by
  obtain ⟨p, htop, hunits, hm⟩ := exists_ofInt_eq h
  rw [hm, extended_of_ne_top htop, signedUnits, hunits]
  congr 1
  have hone : (m.natAbs * one : Nat) = (m.natAbs : Int) * one := Nat.cast_mul _ _
  rw [hone, ← Int.neg_mul, ← ite_mul]
  congr 1
  simp only [decide_eq_true_eq]
  split <;> omega

/-- Whole numbers are summed up exactly as long as their magnitudes stay within `2 ^ 53` together. -/
theorem foldl_add_whole {whole : Binary64 → Int} {ys : List Binary64} {m : Int}
    (hys : ∀ y ∈ ys, y.extended = .finite (whole y * one))
    (h : m.natAbs + (ys.map fun y => (whole y).natAbs).sum ≤ exactLimit) :
    ys.foldl (· + ·) (ofInt m) = ofInt (m + (ys.map whole).sum) := by
  induction ys generalizing m with
  | nil => rw [List.foldl_nil, List.map_nil, List.sum_nil, Int.add_zero]
  | cons y ys ih =>
    rw [List.map_cons, List.sum_cons] at h ⊢
    have hm : (ofInt m).extended = .finite (m * one) := extended_ofInt (by omega)
    have hstep : ofInt m + y = ofInt (m + whole y) := by
      rw [add_eq_rounded (dropZeroSign_ofInt m), hm, hys y (List.mem_cons_self ..),
        Extended.finite_add_finite, ← Int.add_mul, rounded_whole]
    rw [List.foldl_cons, hstep, ih (fun z hz => hys z (List.mem_cons_of_mem y hz)) (by omega),
      Int.add_assoc]

/-- A quotient of whole numbers up to `2 ^ 53` that is whole is exact. -/
theorem ofInt_mul_div_ofNat {q : Int} {n : Nat} (hn : 0 < n) (hlimit : n ≤ exactLimit)
    (h : (q * n).natAbs ≤ exactLimit) : ofInt (q * n) / ofNat n = ofInt q := by
  have hq : q.natAbs ≤ exactLimit := by
    rw [Int.natAbs_mul, Int.natAbs_natCast] at h
    exact (Nat.le_mul_of_pos_right _ hn).trans h
  obtain ⟨p, hp, hunitsp, hproduct⟩ := exists_ofInt_eq h
  obtain ⟨d, hd, hunitsd, hdivisor⟩ := exists_ofNat_eq hlimit
  obtain ⟨r, -, hunitsr, hquotient⟩ := exists_ofInt_eq hq
  have hne : d.val ≠ 0 := by
    intro hzero
    rw [hzero, units_zero] at hunitsd
    exact (Nat.mul_pos hn one_pos).ne hunitsd
  have hunits : units p * one = units r * units d := by
    rw [hunitsp, hunitsd, hunitsr, Int.natAbs_mul, Int.natAbs_natCast]
    ring
  rw [hproduct, hdivisor, hquotient, div_eq_number hp hd hne hunits]
  simp only [mul_neg_iff_left hn, Bool.bne_false]

end ScaleFactor.Binary64
