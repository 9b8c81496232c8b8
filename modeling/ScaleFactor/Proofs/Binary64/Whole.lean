import ScaleFactor.Binary64.Arithmetic
import ScaleFactor.Proofs.Binary64.Order

/-!
# Whole numbers as binary64 numbers

Rounding keeps the order: of two results over the same denominator the greater one is not rounded to
a lesser place (`nearestPlace_mono`). Within a binade that is so because nothing lies between a
quotient and its nearest whole number but the numbers that are rounded the same way, and a result in
a lower binade cannot be rounded past the first place of a higher one.

Up to `2 ^ 53` every whole number is a magnitude itself (`exists_units_eq`), so that rounding changes
nothing there and keeps different numbers apart. Beyond, two whole numbers may become one. So a
comparison of whole numbers after rounding never says what is not so before, and up to `2 ^ 53` it
says all that is so.
-/

namespace ScaleFactor.Binary64

/-! ## Rounding keeps the order -/

theorem nearestWhole_bounds (n d : Nat) :
    n / d ≤ nearestWhole n d ∧ nearestWhole n d ≤ n / d + 1 := by
  unfold nearestWhole
  split
  · omega
  · split
    · omega
    · omega

theorem nearestWhole_mono {n m : Nat} (h : n ≤ m) (d : Nat) :
    nearestWhole n d ≤ nearestWhole m d := by
  have hn := nearestWhole_bounds n d
  have hm := nearestWhole_bounds m d
  rcases Nat.lt_or_eq_of_le (Nat.div_le_div_right (c := d) h) with hlt | heq
  · omega
  · -- the quotients are the same, so the remainders are in order
    have hrem : n % d ≤ m % d := by
      have hn := Nat.div_add_mod n d
      have hm := Nat.div_add_mod m d
      rw [heq] at hn
      omega
    unfold nearestWhole
    rw [heq]
    split_ifs <;> omega

/-- A result takes at most one bit more than the fraction, after as many doublings as it has. -/
theorem quotient_lt (n d : Nat) : n / (d * Nat.pow 2 (doublings n d)) < 2 * binade := by
  have hlog : n / d < 2 ^ (doublings n d + 53) := by
    by_cases hzero : n / d = 0
    · rw [hzero]
      exact Nat.two_pow_pos _
    · refine (Nat.log2_lt hzero).1 ?_
      unfold doublings fractionBits
      omega
  rw [← Nat.div_div_eq_div_mul]
  refine Nat.div_lt_of_lt_mul ?_
  calc n / d < 2 ^ (doublings n d + 53) := hlog
    _ = Nat.pow 2 (doublings n d) * (2 * binade) := by rw [pow_add]; rfl

/-- As soon as there are doublings, a result has all the bits of the fraction and one in front. -/
theorem le_quotient {n d : Nat} (h : 0 < doublings n d) :
    binade ≤ n / (d * Nat.pow 2 (doublings n d)) := by
  have hdoublings : doublings n d + fractionBits = (n / d).log2 := by
    unfold doublings at h ⊢
    omega
  have hne : n / d ≠ 0 := by
    intro hzero
    rw [doublings, hzero] at h
    exact absurd h (by decide)
  rw [← Nat.div_div_eq_div_mul]
  refine (Nat.le_div_iff_mul_le (Nat.two_pow_pos _)).2 ?_
  calc binade * Nat.pow 2 (doublings n d) = 2 ^ (doublings n d + fractionBits) := by
        rw [pow_add, Nat.mul_comm]
        rfl
    _ ≤ n / d := by
        rw [hdoublings]
        exact Nat.log2_self_le hne

theorem doublings_mono {n m : Nat} (h : n ≤ m) (d : Nat) : doublings n d ≤ doublings m d := by
  unfold doublings
  rw [Nat.log2_eq_log_two, Nat.log2_eq_log_two]
  exact Nat.sub_le_sub_right (Nat.log_mono_right (Nat.div_le_div_right h)) _

/-- **Rounding keeps the order.** -/
theorem nearestPlace_mono {n m : Nat} (h : n ≤ m) (d : Nat) :
    nearestPlace n d ≤ nearestPlace m d := by
  unfold nearestPlace
  refine min_le_min_left top ?_
  rcases Nat.lt_or_eq_of_le (doublings_mono h d) with hlt | heq
  · -- one binade at least lies between the first places of the two binades
    have hn := (nearestWhole_bounds n (d * Nat.pow 2 (doublings n d))).2
    have hm := (nearestWhole_bounds m (d * Nat.pow 2 (doublings m d))).1
    have hhigh := quotient_lt n d
    have hlow := le_quotient (Nat.zero_lt_of_lt hlt)
    calc doublings n d * binade + nearestWhole n (d * Nat.pow 2 (doublings n d))
        ≤ doublings n d * binade + 2 * binade := by omega
      _ = (doublings n d + 1) * binade + binade := by ring
      _ ≤ doublings m d * binade + binade :=
          Nat.add_le_add_right (Nat.mul_le_mul_right binade hlt) binade
      _ ≤ doublings m d * binade + nearestWhole m (d * Nat.pow 2 (doublings m d)) := by omega
  · rw [heq]
    exact Nat.add_le_add_left (nearestWhole_mono h _) _

/-! ## Whole numbers are magnitudes up to `2 ^ 53` -/

/-- The greatest whole number up to which all whole numbers are magnitudes. -/
def exactLimit : Nat := 2 * binade

theorem binade_pos : 0 < binade := Nat.two_pow_pos _

theorem one_pos : 0 < one := by
  unfold one
  generalize scaleBits = k
  exact Nat.two_pow_pos k

theorem pow_mul_pow_sub_eq_one {j : Nat} (h : j ≤ scaleBits) :
    Nat.pow 2 j * Nat.pow 2 (scaleBits - j) = one := by
  unfold one
  generalize scaleBits = k at h ⊢
  exact pow_mul_pow_sub 2 h

/-- The exact value of a place from its significand, which fills a binade or is the first one of the
next. -/
theorem units_of_significand (e : Nat) {m : Nat} (hlow : binade ≤ m) (hhigh : m ≤ 2 * binade) :
    units (e * binade + m) = m * Nat.pow 2 e := by
  have hne : ¬e * binade + m < binade := by
    have := Nat.le_add_left m (e * binade)
    omega
  rw [units, if_neg hne]
  rcases Nat.lt_or_eq_of_le hhigh with hlt | rfl
  · have hdiv : (e * binade + m) / binade = e + 1 := by
      simp only [binade_eq] at *
      omega
    have hmod : (e * binade + m) % binade = m - binade := by
      simp only [binade_eq] at *
      omega
    rw [hdiv, hmod, Nat.add_sub_cancel, Nat.add_sub_cancel' hlow]
  · have hdiv : (e * binade + 2 * binade) / binade = e + 2 := by
      simp only [binade_eq] at *
      omega
    have hmod : (e * binade + 2 * binade) % binade = 0 := by
      simp only [binade_eq] at *
      omega
    have hdouble : Nat.pow 2 (e + 2 - 1) = 2 * Nat.pow 2 e := Nat.pow_succ'
    rw [hdiv, hmod, hdouble]
    ring

/-- A whole number fills the significand after some doublings. -/
theorem exists_significand {n : Nat} (hpos : 0 < n) (h : n ≤ exactLimit) :
    ∃ j ≤ fractionBits, binade ≤ n * Nat.pow 2 j ∧ n * Nat.pow 2 j ≤ 2 * binade := by
  rcases Nat.lt_or_eq_of_le h with hlt | rfl
  · have hne : n ≠ 0 := Nat.ne_of_gt hpos
    have hlog : n.log2 ≤ fractionBits := Nat.le_of_lt_succ ((Nat.log2_lt hne).2 hlt)
    have hsum : n.log2 + (fractionBits - n.log2) = fractionBits := by omega
    refine ⟨fractionBits - n.log2, Nat.sub_le _ _, ?_, ?_⟩
    · calc binade = 2 ^ (n.log2 + (fractionBits - n.log2)) := by rw [hsum]; rfl
        _ = 2 ^ n.log2 * Nat.pow 2 (fractionBits - n.log2) := pow_add ..
        _ ≤ n * Nat.pow 2 (fractionBits - n.log2) :=
            Nat.mul_le_mul_right _ (Nat.log2_self_le hne)
    · calc n * Nat.pow 2 (fractionBits - n.log2)
          ≤ 2 ^ (n.log2 + 1) * Nat.pow 2 (fractionBits - n.log2) :=
            Nat.mul_le_mul_right _ (Nat.le_of_lt Nat.lt_log2_self)
        _ = 2 ^ (n.log2 + (fractionBits - n.log2) + 1) := by
            rw [Nat.add_right_comm]
            exact (pow_add ..).symm
        _ = 2 * binade := by rw [hsum]; rfl
  · exact ⟨0, Nat.zero_le _, by decide, by decide⟩

/-- Every whole number up to `2 ^ 53` is a magnitude. -/
theorem exists_units_eq {n : Nat} (h : n ≤ exactLimit) : ∃ p < top, units p = n * one := by
  rcases Nat.eq_zero_or_pos n with rfl | hpos
  · exact ⟨0, by decide, by rw [units_of_lt binade_pos, Nat.zero_mul]⟩
  · obtain ⟨j, hj, hlow, hhigh⟩ := exists_significand hpos h
    refine ⟨(scaleBits - j) * binade + n * Nat.pow 2 j, ?_, ?_⟩
    · calc (scaleBits - j) * binade + n * Nat.pow 2 j
          ≤ scaleBits * binade + 2 * binade :=
            Nat.add_le_add (Nat.mul_le_mul_right _ (Nat.sub_le _ _)) hhigh
        _ < top := by decide
    · have hscale : j ≤ scaleBits := hj.trans (by decide)
      rw [units_of_significand _ hlow hhigh, Nat.mul_assoc, pow_mul_pow_sub_eq_one hscale]

/-- A whole number up to `2 ^ 53` is not changed by rounding. -/
theorem units_nearestPlace {n : Nat} (h : n ≤ exactLimit) :
    units (nearestPlace (n * one) 1) = n * one := by
  obtain ⟨p, hp, hunits⟩ := exists_units_eq h
  rw [← hunits, nearestPlace_units hp.le]

theorem nearestPlace_lt {n m : Nat} (hm : m ≤ exactLimit) (h : n < m) :
    nearestPlace (n * one) 1 < nearestPlace (m * one) 1 := by
  by_contra hle
  have hunits : units (nearestPlace (m * one) 1) ≤ units (nearestPlace (n * one) 1) := by
    rcases Nat.lt_or_eq_of_le (Nat.le_of_not_lt hle) with hlt | heq
    · exact (units_lt_units hlt).le
    · exact (congrArg units heq).le
  rw [units_nearestPlace hm, units_nearestPlace (h.le.trans hm)] at hunits
  exact absurd (Nat.le_of_mul_le_mul_right hunits one_pos) (Nat.not_le.2 h)

/-- Whole numbers of no more than 64 bits are far from infinity. -/
theorem nearestPlace_lt_top {n : Nat} (h : n ≤ Nat.pow 2 64) : nearestPlace (n * one) 1 < top := by
  -- the place of `2 ^ 64`, a significand of `2 ^ 53` with eleven more doublings
  have hunits : units ((11 + scaleBits) * binade + 2 * binade) = Nat.pow 2 64 * one := by
    rw [units_of_significand (11 + scaleBits) (Nat.le_mul_of_pos_left binade two_pos) le_rfl]
    unfold one
    generalize scaleBits = k
    have hsplit : Nat.pow 2 (11 + k) = Nat.pow 2 11 * Nat.pow 2 k := pow_add ..
    have hbits : 2 * binade * Nat.pow 2 11 = Nat.pow 2 64 := by decide
    rw [hsplit, ← Nat.mul_assoc, hbits]
  have htop : (11 + scaleBits) * binade + 2 * binade < top := by decide
  calc nearestPlace (n * one) 1
      ≤ nearestPlace (Nat.pow 2 64 * one) 1 :=
        nearestPlace_mono (Nat.mul_le_mul_right one h) 1
    _ = (11 + scaleBits) * binade + 2 * binade := by rw [← hunits, nearestPlace_units htop.le]
    _ < top := htop

/-! ## Whole numbers of either sign -/

/-- The rank of the number nearest to a whole number. -/
def wholeRank (n : Int) : Int :=
  if n < 0 then -(nearestPlace (n.natAbs * one) 1 : Int) else nearestPlace (n.natAbs * one) 1

theorem rank?_ofInt (n : Int) : (ofInt n).rank? = some (wholeRank n) := by
  unfold ofInt round wholeRank rank?
  simp only [decide_eq_true_eq]

theorem wholeRank_mono {n m : Int} (h : n ≤ m) : wholeRank n ≤ wholeRank m := by
  have place_mono {a b : Nat} (hab : a ≤ b) :
      nearestPlace (a * one) 1 ≤ nearestPlace (b * one) 1 :=
    nearestPlace_mono (Nat.mul_le_mul_right one hab) 1
  unfold wholeRank
  split
  · split
    · -- of two negative numbers the lesser one has the greater magnitude
      have := place_mono (show m.natAbs ≤ n.natAbs by omega)
      omega
    · omega
  · rw [if_neg (by omega)]
    have := place_mono (show n.natAbs ≤ m.natAbs by omega)
    omega

theorem wholeRank_lt {n m : Int} (hn : n.natAbs ≤ exactLimit) (hm : m.natAbs ≤ exactLimit)
    (h : n < m) : wholeRank n < wholeRank m := by
  unfold wholeRank
  split
  · split
    · have := nearestPlace_lt hn (show m.natAbs < n.natAbs by omega)
      omega
    · have := nearestPlace_lt hn (show 0 < n.natAbs by omega)
      omega
  · rw [if_neg (by omega)]
    have := nearestPlace_lt hm (show n.natAbs < m.natAbs by omega)
    omega

section Comparison

variable {n m : Int}

theorem related_ofInt (r : Int → Int → Bool) (n m : Int) :
    related r (ofInt n) (ofInt m) = r (wholeRank n) (wholeRank m) := by
  simp only [related, rank?_ofInt]

theorem lt_of_lt_ofInt (h : (ofInt n).lt (ofInt m) = true) : n < m := by
  rw [lt, related_ofInt, decide_eq_true_eq] at h
  by_contra hle
  exact absurd (wholeRank_mono (Int.not_lt.1 hle)) (Int.not_le.2 h)

theorem le_ofInt_of_le (h : n ≤ m) : (ofInt n).le (ofInt m) = true := by
  rw [le, related_ofInt, decide_eq_true_eq]
  exact wholeRank_mono h

theorem same_ofInt_self (n : Int) : (ofInt n).same (ofInt n) = true := by
  rw [same, related_ofInt, beq_self_eq_true]

theorem lt_ofInt_self (n : Int) : (ofInt n).lt (ofInt n) = false := by
  rw [lt, related_ofInt, decide_eq_false_iff_not]
  exact Int.lt_irrefl _

variable (hn : n.natAbs ≤ exactLimit) (hm : m.natAbs ≤ exactLimit)
include hn hm

theorem lt_ofInt_iff : (ofInt n).lt (ofInt m) = true ↔ n < m := by
  refine ⟨lt_of_lt_ofInt, ?_⟩
  intro h
  rw [lt, related_ofInt, decide_eq_true_eq]
  exact wholeRank_lt hn hm h

theorem le_ofInt_iff : (ofInt n).le (ofInt m) = true ↔ n ≤ m := by
  refine ⟨?_, le_ofInt_of_le⟩
  intro h
  rw [le, related_ofInt, decide_eq_true_eq] at h
  by_contra hlt
  exact absurd (wholeRank_lt hm hn (Int.not_le.1 hlt)) (Int.not_lt.2 h)

theorem same_ofInt_iff : (ofInt n).same (ofInt m) = true ↔ n = m := by
  rw [same_eq_le_and_le, Bool.and_eq_true, le_ofInt_iff hm hn, le_ofInt_iff hn hm]
  omega

end Comparison

section Word

variable {v w : Int64} (hv : v.toInt.natAbs ≤ exactLimit) (hw : w.toInt.natAbs ≤ exactLimit)
include hv hw

theorem same_ofInt_toInt : (ofInt v.toInt).same (ofInt w.toInt) = decide (v = w) := by
  rw [Bool.eq_iff_iff, decide_eq_true_iff, ← Int64.toInt_inj]
  exact same_ofInt_iff hv hw

theorem lt_ofInt_toInt : (ofInt v.toInt).lt (ofInt w.toInt) = decide (v < w) := by
  rw [Bool.eq_iff_iff, decide_eq_true_iff, Int64.lt_iff_toInt_lt]
  exact lt_ofInt_iff hv hw

theorem le_ofInt_toInt : (ofInt v.toInt).le (ofInt w.toInt) = decide (v ≤ w) := by
  rw [Bool.eq_iff_iff, decide_eq_true_iff, Int64.le_iff_toInt_le]
  exact le_ofInt_iff hv hw

end Word

theorem isInfinite_ofInt {n : Int} (h : n.natAbs ≤ Nat.pow 2 64) :
    (ofInt n).isInfinite = false := by
  have hne := (nearestPlace_lt_top h).ne
  unfold ofInt round isInfinite
  simp only [beq_eq_false_iff_ne, ne_eq, hne, not_false_eq_true]

/-- A whole number up to `2 ^ 53` of either sign comes out as it came in. -/
theorem truncate_ofInt {n : Int} (h : n.natAbs ≤ exactLimit) : (ofInt n).truncate = n := by
  have hunits := units_nearestPlace h
  have hsmall : n.natAbs ≤ 9007199254740992 := h
  unfold ofInt round truncate
  simp only [hunits, Nat.mul_div_cancel _ one_pos, decide_eq_true_eq, wordMin, wordMax]
  split <;> omega

end ScaleFactor.Binary64
