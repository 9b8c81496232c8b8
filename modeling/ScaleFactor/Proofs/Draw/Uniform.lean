import Mathlib.Algebra.Order.BigOperators.Group.Finset
import Mathlib.Algebra.Order.Floor.Div
import Mathlib.Data.FinEnum
import Mathlib.Order.Interval.Finset.Nat
import ScaleFactor.Draw

/-!
# Equally many words for every index

A draw among `n` things looks at the product of a word and `n`. These products are the multiples of
`n` below `n * 2 ^ 64`, which makes `n` windows of `2 ^ 64` places: in window `i` the index is `i`.
Of each window only the places in front are accepted, as many as `n * 2 ^ leadingZeros n`, and so
many places in a row hold exactly `2 ^ leadingZeros n` multiples of `n`, wherever they start. So the
words that draw `i` are that many neighbours, from `firstWord n i` on (`accepts_and_wordIndex_iff`),
and to count them is to count an interval.
-/

namespace ScaleFactor.Draw

variable {n : Nat}

/-! ## The zone -/

theorem zone_add_one (hn : 0 < n) : zone n + 1 = n * 2 ^ leadingZeros n :=
  Nat.sub_add_cancel (Nat.mul_pos hn (Nat.two_pow_pos _))

/-- The zone is at least half of a window. -/
theorem half_le_zone (hn : 0 < n) : 2 ^ 63 ≤ zone n + 1 := by
  have hlog : 2 ^ n.log2 ≤ n := Nat.log2_self_le hn.ne'
  calc 2 ^ 63 ≤ 2 ^ (n.log2 + leadingZeros n) :=
        Nat.pow_le_pow_right Nat.two_pos (by unfold leadingZeros; omega)
    _ = 2 ^ n.log2 * 2 ^ leadingZeros n := Nat.pow_add ..
    _ ≤ n * 2 ^ leadingZeros n := Nat.mul_le_mul_right _ hlog
    _ = zone n + 1 := (zone_add_one hn).symm

/-- The zone ends within a window: the shift that makes it loses no bit. -/
theorem zone_add_one_lt (hn : 0 < n) (hlt : n < wordCount) : zone n + 1 < wordCount := by
  have hlog : n.log2 < 64 := (Nat.log2_lt hn.ne').2 hlt
  have hsum : n.log2 + 1 + leadingZeros n = 64 := by
    unfold leadingZeros
    omega
  calc zone n + 1 = n * 2 ^ leadingZeros n := zone_add_one hn
    _ < 2 ^ (n.log2 + 1) * 2 ^ leadingZeros n :=
        Nat.mul_lt_mul_of_pos_right Nat.lt_log2_self (Nat.two_pow_pos _)
    _ = 2 ^ 64 := by rw [← Nat.pow_add, hsum]

/-! ## The words of an index -/

/-- The first word whose product with `n` lies in window `i`. -/
def firstWord (n i : Nat) : Nat := (i * wordCount) ⌈/⌉ n

theorem firstWord_le_iff (hn : 0 < n) {i k : Nat} : firstWord n i ≤ k ↔ i * wordCount ≤ k * n := by
  rw [firstWord, ceilDiv_le_iff_le_mul hn, Nat.mul_comm n k]

/-- With `count` more words the products come `n * count` places further. -/
theorem firstWord_add_le_iff (hn : 0 < n) {i count k : Nat} :
    firstWord n i + count ≤ k ↔ i * wordCount + n * count ≤ k * n := by
  by_cases hk : count ≤ k
  · obtain ⟨l, rfl⟩ := Nat.exists_eq_add_of_le' hk
    rw [Nat.add_le_add_iff_right, firstWord_le_iff hn, Nat.add_mul, Nat.mul_comm count n,
      Nat.add_le_add_iff_right]
  · -- not even the words before the first one are that many
    have hlt : k * n < n * count := by
      rw [Nat.mul_comm k n]
      exact Nat.mul_lt_mul_of_pos_left (Nat.lt_of_not_le hk) hn
    constructor <;> intro h <;> omega

/-- A word draws an index if its product with `n` is in front in the window of the index. -/
theorem accepts_and_wordIndex_iff_product (hn : 0 < n) (hlt : n < wordCount) (i : Nat)
    (w : UInt64) : accepts n w = true ∧ wordIndex n w = i ↔
      i * wordCount ≤ w.toNat * n ∧ w.toNat * n < i * wordCount + (zone n + 1) := by
  have hzone := zone_add_one_lt hn hlt
  have hcount : 0 < wordCount := Nat.two_pow_pos 64
  have hsplit : wordIndex n w * wordCount + w.toNat * n % wordCount = w.toNat * n :=
    Nat.div_add_mod' _ _
  have hmod : w.toNat * n % wordCount < wordCount := Nat.mod_lt _ hcount
  have haccepts : accepts n w = true ↔ w.toNat * n % wordCount ≤ zone n := decide_eq_true_iff
  rw [haccepts]
  constructor
  · rintro ⟨hle, rfl⟩
    omega
  · rintro ⟨hlow, hhigh⟩
    have hindex : wordIndex n w = i := by
      refine Nat.div_eq_of_lt_le hlow ?_
      rw [Nat.succ_mul]
      omega
    rw [hindex] at hsplit
    exact ⟨by omega, hindex⟩

/-- The words that draw an index are neighbours, `2 ^ leadingZeros n` of them. -/
theorem accepts_and_wordIndex_iff (hn : 0 < n) (hlt : n < wordCount) (i : Nat) (w : UInt64) :
    accepts n w = true ∧ wordIndex n w = i ↔
      firstWord n i ≤ w.toNat ∧ w.toNat < firstWord n i + 2 ^ leadingZeros n := by
  rw [accepts_and_wordIndex_iff_product hn hlt, zone_add_one hn, firstWord_le_iff hn,
    ← Nat.not_le, ← firstWord_add_le_iff hn, Nat.not_le]

/-- None of the words of an index is too large for 64 bits. -/
theorem firstWord_add_le_wordCount {i : Nat} (hlt : n < wordCount) (hi : i < n) :
    firstWord n i + 2 ^ leadingZeros n ≤ wordCount := by
  have hn : 0 < n := Nat.zero_lt_of_lt hi
  rw [firstWord_add_le_iff hn, ← zone_add_one hn]
  calc i * wordCount + (zone n + 1) ≤ i * wordCount + wordCount :=
        Nat.add_le_add_left (zone_add_one_lt hn hlt).le _
    _ = (i + 1) * wordCount := (Nat.succ_mul i wordCount).symm
    _ ≤ n * wordCount := Nat.mul_le_mul_right _ hi
    _ = wordCount * n := Nat.mul_comm ..

/-! ## Counting words -/

/-- As many words lie in an interval as numbers do. -/
theorem card_words_between {low high : Nat} (hhigh : high ≤ wordCount) :
    (Finset.univ.filter fun w : UInt64 => low ≤ w.toNat ∧ w.toNat < high).card = high - low := by
  rw [← Nat.card_Ico]
  refine Finset.card_nbij' UInt64.toNat UInt64.ofNat ?_ ?_ ?_ ?_
  · intro w hw
    simpa using hw
  · intro k hk
    have hk : low ≤ k ∧ k < high := Finset.mem_Ico.1 hk
    have hword : (UInt64.ofNat k).toNat = k :=
      UInt64.toNat_ofNat_of_lt' (Nat.lt_of_lt_of_le hk.2 hhigh)
    simpa [hword] using hk
  · intro w _
    exact UInt64.ofNat_toNat
  · intro k hk
    have hk : low ≤ k ∧ k < high := Finset.mem_Ico.1 hk
    exact UInt64.toNat_ofNat_of_lt' (Nat.lt_of_lt_of_le hk.2 hhigh)

/-- Every index is drawn by equally many words. -/
theorem card_wordIndex_eq {i : Nat} (hlt : n < wordCount) (hi : i < n) :
    (Finset.univ.filter fun w : UInt64 => accepts n w = true ∧ wordIndex n w = i).card =
      2 ^ leadingZeros n := by
  have hn : 0 < n := Nat.zero_lt_of_lt hi
  simp only [accepts_and_wordIndex_iff hn hlt]
  rw [card_words_between (firstWord_add_le_wordCount hlt hi), Nat.add_sub_cancel_left]

/-- All indices together are drawn by as many words as there are places in the zone. -/
theorem card_accepts (hn : 0 < n) (hlt : n < wordCount) :
    (Finset.univ.filter fun w : UInt64 => accepts n w = true).card = zone n + 1 := by
  have hindex : Set.MapsTo (wordIndex n)
      (Finset.univ.filter fun w : UInt64 => accepts n w = true) (Finset.range n) :=
    fun w _ => Finset.mem_coe.2 (Finset.mem_range.2 (wordIndex_lt hn w))
  rw [Finset.card_eq_sum_card_fiberwise hindex, zone_add_one hn]
  calc ∑ i ∈ Finset.range n, _ = ∑ i ∈ Finset.range n, 2 ^ leadingZeros n := by
        refine Finset.sum_congr rfl fun i hi => ?_
        rw [Finset.filter_filter]
        exact card_wordIndex_eq hlt (Finset.mem_range.1 hi)
    _ = n * 2 ^ leadingZeros n := by rw [Finset.sum_const, Finset.card_range, smul_eq_mul]

end ScaleFactor.Draw
