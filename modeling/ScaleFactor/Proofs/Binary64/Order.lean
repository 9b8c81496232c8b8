import Mathlib
import ScaleFactor.Binary64.Basic

/-!
# The order of binary64 numbers

Comparisons look at ranks and at nothing else, so what is known of the order of whole numbers is
known of them too, with two exceptions: a NaN has no rank and compares with nothing, and the two
zeros share one. `dropZeroSign_eq_iff_rank?_eq` says that there are no others: a number whose zero
sign is dropped is known by its rank.

That makes the greater and the lesser of two numbers easy to reason about. Their ranks are `max` and
`min` of ranks, where a missing rank gives way (`choice_greater`, `choice_lesser`), and these are
associative and commutative without exception. The numbers themselves are not: of two zeros the first
one stays, with its sign. `Prevails` says without ranks what is left of two numbers, whichever zero
that may be.
-/

namespace ScaleFactor.Binary64

variable {x y z : Binary64}

/-! ## Comparisons -/

theorem le_eq_true_iff :
    x.le y = true ↔ ∃ a b, x.rank? = some a ∧ y.rank? = some b ∧ a ≤ b := by
  simp [le, related_eq_true_iff]

theorem isNaN_eq_false_iff : x.isNaN = false ↔ ∃ a, x.rank? = some a := by
  cases x <;> simp [isNaN, rank?]

/-- Relations of ranks are composed as relations of numbers. -/
theorem related_trans {r r' r'' : Int → Int → Bool}
    (h : ∀ a b c, r a b = true → r' b c = true → r'' a c = true)
    (hxy : related r x y = true) (hyz : related r' y z = true) : related r'' x z = true := by
  obtain ⟨a, b, ha, hb, hab⟩ := related_eq_true_iff.1 hxy
  obtain ⟨b', c, hb', hc, hbc⟩ := related_eq_true_iff.1 hyz
  obtain rfl : b = b' := Option.some.inj (hb.symm.trans hb')
  exact related_eq_true_iff.2 ⟨a, c, ha, hc, h a b c hab hbc⟩

theorem le_trans (hxy : x.le y = true) (hyz : y.le z = true) : x.le z = true := by
  refine related_trans ?_ hxy hyz
  simp only [decide_eq_true_eq]
  exact fun _ _ _ => Int.le_trans

theorem lt_of_le_of_lt (hxy : x.le y = true) (hyz : y.lt z = true) : x.lt z = true := by
  refine related_trans ?_ hxy hyz
  simp only [decide_eq_true_eq]
  exact fun _ _ _ => Int.lt_of_le_of_lt

theorem lt_of_lt_of_le (hxy : x.lt y = true) (hyz : y.le z = true) : x.lt z = true := by
  refine related_trans ?_ hxy hyz
  simp only [decide_eq_true_eq]
  exact fun _ _ _ => Int.lt_of_lt_of_le

/-- Two numbers are the same when neither exceeds the other. -/
theorem same_eq_le_and_le (x y : Binary64) : x.same y = (y.le x && x.le y) := by
  unfold same le related
  cases x.rank? with
  | none => cases y.rank? <;> rfl
  | some a =>
    cases y.rank? with
    | none => rfl
    | some b =>
      show (a == b) = (decide (b ≤ a) && decide (a ≤ b))
      rw [Bool.eq_iff_iff]
      simp only [beq_iff_eq, Bool.and_eq_true, decide_eq_true_eq]
      omega

/-- Of two numbers one is less or they are the same, and only one of these holds. A NaN is neither
less nor greater than anything, nor the same. -/
theorem count_lt_same_gt (x y : Binary64) :
    [x.lt y, x.same y, y.lt x].count true = if x.isNaN || y.isNaN then 0 else 1 := by
  cases hx : x.rank? with
  | none =>
    have hnan : x.isNaN = true := rank?_eq_none_iff.1 hx
    cases y.rank? <;> simp [lt, same, related, hx, hnan]
  | some a =>
    have hx' : x.isNaN = false := isNaN_eq_false_iff.2 ⟨a, hx⟩
    cases hy : y.rank? with
    | none =>
      have hnan : y.isNaN = true := rank?_eq_none_iff.1 hy
      simp [lt, same, related, hx, hy, hnan]
    | some b =>
      have hy' : y.isNaN = false := isNaN_eq_false_iff.2 ⟨b, hy⟩
      rcases lt_trichotomy a b with hlt | rfl | hgt
      · simp [lt, same, related, hx, hy, hx', hy', hlt, hlt.ne, hlt.le]
      · simp [lt, same, related, hx, hy, hx', hy']
      · simp [lt, same, related, hx, hy, hx', hy', hgt, hgt.ne', hgt.le]

theorem le_eq_not_lt (hx : x.isNaN = false) (hy : y.isNaN = false) : x.le y = !y.lt x := by
  obtain ⟨a, ha⟩ := isNaN_eq_false_iff.1 hx
  obtain ⟨b, hb⟩ := isNaN_eq_false_iff.1 hy
  simp only [le, lt, related, ha, hb, ← decide_not, not_lt]

/-! ## Numbers by their ranks -/

@[simp] theorem rank?_dropZeroSign (x : Binary64) : x.dropZeroSign.rank? = x.rank? := by
  unfold dropZeroSign
  cases x with
  | nan => rfl
  | number s p =>
    by_cases hp : p.val = 0
    · simp [isZero, hp, zero, signedZero, rank?]
    · simp [isZero, hp]

/-- Away from zero a signed magnitude has both its sign and its magnitude in it. -/
theorem signed_inj {s t : Bool} {p q : Nat} (hp : p ≠ 0)
    (h : (if s then -(p : Int) else p) = if t then -(q : Int) else q) : s = t ∧ p = q := by
  -- equal signs leave the magnitudes, and unequal ones would make both of them zero
  cases s <;> cases t <;>
    simp only [if_true, if_false, Bool.false_eq_true, reduceCtorEq, true_and, false_and] at h ⊢ <;>
    omega

/-- Only the sign of a zero does not show in the rank. -/
theorem dropZeroSign_eq_iff_rank?_eq : x.dropZeroSign = y.dropZeroSign ↔ x.rank? = y.rank? := by
  constructor
  · intro h
    rw [← rank?_dropZeroSign x, h, rank?_dropZeroSign]
  · intro h
    cases x with
    | nan =>
      cases y with
      | nan => rfl
      | number t q => cases h
    | number s p =>
      cases y with
      | nan => cases h
      | number t q =>
        have hrank : (if s then -(p.val : Int) else p.val) = if t then -(q.val : Int) else q.val :=
          Option.some.inj h
        by_cases hp : p.val = 0
        · have hq : q.val = 0 := by
            rw [hp] at hrank
            split at hrank <;> split at hrank <;> omega
          simp [dropZeroSign, isZero, hp, hq]
        · obtain ⟨rfl, hplace⟩ := signed_inj hp hrank
          rw [Fin.ext hplace]

/-! ## The greater and the lesser number -/

theorem eq_nan_of_rank?_eq_none (h : x.rank? = none) : x = nan := by
  cases x with
  | nan => rfl
  | number s p => cases h

/-- Of two numbers with ranks the second one is taken only if it is greater. -/
theorem greater_eq_ite {a b : Int} (hx : x.rank? = some a) (hy : y.rank? = some b) :
    x.greater y = if a < b then y else x := by
  have hnan : x.isNaN = false := isNaN_eq_false_iff.2 ⟨a, hx⟩
  simp [greater, hnan, lt, related, hx, hy]

theorem lesser_eq_ite {a b : Int} (hx : x.rank? = some a) (hy : y.rank? = some b) :
    x.lesser y = if b < a then y else x := by
  have hnan : x.isNaN = false := isNaN_eq_false_iff.2 ⟨a, hx⟩
  simp [lesser, hnan, lt, related, hx, hy]

theorem greater_eq_or_eq (x y : Binary64) : x.greater y = x ∨ x.greater y = y := by
  unfold greater
  split
  · exact .inr rfl
  · split
    · exact .inr rfl
    · exact .inl rfl

theorem lesser_eq_or_eq (x y : Binary64) : x.lesser y = x ∨ x.lesser y = y := by
  unfold lesser
  split
  · exact .inr rfl
  · split
    · exact .inr rfl
    · exact .inl rfl

theorem greater_nan_right (x : Binary64) : x.greater nan = x := by
  cases x <;> rfl

theorem lesser_nan_right (x : Binary64) : x.lesser nan = x := by
  cases x <;> rfl

/-- What the greater and the lesser of two numbers have in common. `choose` takes the one that comes
later in the order `before`, of numbers with one rank the first, and does to ranks what `op` does. -/
structure Choice (choose : Binary64 → Binary64 → Binary64) (op : Int → Int → Int)
    (before : Binary64 → Binary64 → Bool) : Prop where
  /-- A missing rank gives way. -/
  rank?_choose : ∀ x y, (choose x y).rank? = x.rank?.merge op y.rank?
  eq_or_eq : ∀ x y, choose x y = x ∨ choose x y = y
  eq_left_of_rank? : ∀ {x y}, x.rank? = y.rank? → choose x y = x
  op_of_before : ∀ {x y}, before x y = true →
    ∃ a b, x.rank? = some a ∧ y.rank? = some b ∧ op a b = b ∧ op b a = b

/-- It is enough to look at numbers with ranks, as long as a NaN gives way. -/
theorem rank?_eq_merge {choose : Binary64 → Binary64 → Binary64} {op : Int → Int → Int}
    (hleft : ∀ y, choose nan y = y) (hright : ∀ x, choose x nan = x)
    (h : ∀ {x y a b}, x.rank? = some a → y.rank? = some b → (choose x y).rank? = some (op a b))
    (x y : Binary64) : (choose x y).rank? = x.rank?.merge op y.rank? := by
  cases hx : x.rank? with
  | none => rw [eq_nan_of_rank?_eq_none hx, hleft, Option.merge_none_left]
  | some a =>
    cases hy : y.rank? with
    | none => rw [eq_nan_of_rank?_eq_none hy, hright, hx, Option.merge_none_right]
    | some b => exact h hx hy

theorem choice_greater : Choice greater max fun x y => x.le y where
  rank?_choose := by
    refine rank?_eq_merge (fun _ => rfl) greater_nan_right ?_
    intro x y a b hx hy
    rw [greater_eq_ite hx hy]
    split
    · next hab => rw [hy, max_eq_right hab.le]
    · next hab => rw [hx, max_eq_left (not_lt.1 hab)]
  eq_or_eq := greater_eq_or_eq
  eq_left_of_rank? {x y} h := by
    cases hx : x.rank? with
    | none => rw [eq_nan_of_rank?_eq_none (h.symm.trans hx), greater_nan_right]
    | some a => rw [greater_eq_ite hx (h.symm.trans hx), if_neg (lt_irrefl a)]
  op_of_before h := by
    obtain ⟨a, b, ha, hb, hab⟩ := le_eq_true_iff.1 h
    exact ⟨a, b, ha, hb, max_eq_right hab, max_eq_left hab⟩

theorem choice_lesser : Choice lesser min fun x y => y.le x where
  rank?_choose := by
    refine rank?_eq_merge (fun _ => rfl) lesser_nan_right ?_
    intro x y a b hx hy
    rw [lesser_eq_ite hx hy]
    split
    · next hab => rw [hy, min_eq_right hab.le]
    · next hab => rw [hx, min_eq_left (not_lt.1 hab)]
  eq_or_eq := lesser_eq_or_eq
  eq_left_of_rank? {x y} h := by
    cases hx : x.rank? with
    | none => rw [eq_nan_of_rank?_eq_none (h.symm.trans hx), lesser_nan_right]
    | some a => rw [lesser_eq_ite hx (h.symm.trans hx), if_neg (lt_irrefl a)]
  op_of_before h := by
    obtain ⟨b, a, hb, ha, hba⟩ := le_eq_true_iff.1 h
    exact ⟨a, b, ha, hb, min_eq_right hba, min_eq_left hba⟩

/-- `z` is left of `x` and `y` when the one that comes later in the order stays; of two zeros it may
be either one. A NaN stays only if there is nothing else. -/
structure Prevails (before : Binary64 → Binary64 → Bool) (x y z : Binary64) : Prop where
  eq_or_eq : z = x ∨ z = y
  of_isNaN_left : x.isNaN = true → z = y
  of_isNaN_right : y.isNaN = true → z = x
  of_before : before x y = true → z.dropZeroSign = y.dropZeroSign
  of_after : before y x = true → z.dropZeroSign = x.dropZeroSign

section Choice

variable {choose : Binary64 → Binary64 → Binary64} {op : Int → Int → Int}
  {before : Binary64 → Binary64 → Bool} (hc : Choice choose op before)
include hc

theorem Choice.nan_choose (y : Binary64) : choose nan y = y := by
  rcases hc.eq_or_eq nan y with hnan | hy
  · have hrank : y.rank? = none := by
      rw [← rank?_eq_none_iff.2 (rfl : nan.isNaN = true), ← hnan, hc.rank?_choose]
      exact Option.merge_none_left.symm
    rw [hnan, eq_nan_of_rank?_eq_none hrank]
  · exact hy

/-- The first of two numbers is left as soon as its rank is. -/
theorem Choice.eq_left (h : (choose x y).rank? = x.rank?) : choose x y = x := by
  rcases hc.eq_or_eq x y with hx | hy
  · exact hx
  · rw [hy] at h
    exact hc.eq_left_of_rank? h.symm

/-- What prevails of two numbers is the one that has the rank that is left of their ranks. -/
theorem Choice.prevails (hz : z = x ∨ z = y) (h : z.rank? = x.rank?.merge op y.rank?) :
    Prevails before x y z := by
  refine ⟨hz, ?_, ?_, ?_, ?_⟩
  · intro hnan
    have hx : x.rank? = none := rank?_eq_none_iff.2 hnan
    rw [hx, Option.merge_none_left] at h
    rcases hz with rfl | hy
    · rw [eq_nan_of_rank?_eq_none hx, eq_nan_of_rank?_eq_none (h.symm.trans hx)]
    · exact hy
  · intro hnan
    have hy : y.rank? = none := rank?_eq_none_iff.2 hnan
    rw [hy, Option.merge_none_right] at h
    rcases hz with hx | rfl
    · exact hx
    · rw [eq_nan_of_rank?_eq_none hy, eq_nan_of_rank?_eq_none (h.symm.trans hy)]
  · intro hxy
    obtain ⟨a, b, ha, hb, hop, -⟩ := hc.op_of_before hxy
    rw [dropZeroSign_eq_iff_rank?_eq, h, ha, hb, Option.merge_some_some, hop]
  · intro hyx
    obtain ⟨b, a, hb, ha, -, hop⟩ := hc.op_of_before hyx
    rw [dropZeroSign_eq_iff_rank?_eq, h, ha, hb, Option.merge_some_some, hop]

/-- What is left of two numbers stays so when a third one comes to the first of them and to what is
left. -/
theorem Choice.step [Std.Associative op] [Std.Commutative op] (v : Binary64) (hz : z = x ∨ z = y)
    (h : z.rank? = x.rank?.merge op y.rank?) :
    (choose z v = choose x v ∨ choose z v = y) ∧
      (choose z v).rank? = (choose x v).rank?.merge op y.rank? := by
  have hrank : (choose z v).rank? = (choose x v).rank?.merge op y.rank? := by
    rw [hc.rank?_choose, hc.rank?_choose, h]
    ac_rfl
  refine ⟨?_, hrank⟩
  rcases hz with rfl | rfl
  · exact .inl rfl
  · rcases hc.eq_or_eq x v with hx | hv
    · -- the third number does not get past the first one, nor that one past the second
      refine .inr (hc.eq_left ?_)
      rw [hrank, hx, ← h]
    · rw [hv]
      exact (hc.eq_or_eq z v).symm

end Choice

end ScaleFactor.Binary64
