import ScaleFactor.Proofs.Binary64.Nearest
import ScaleFactor.Proofs.Binary64.Value

/-!
# Rounding of rational numbers

The finite numbers have rational values, and a rational number is rounded to the finite number that
is nearest to it, at a tie to the one with the even significand (`RoundsTo`). That is so below
`overflow`, half a step above the greatest finite number; from there on infinity takes the place of
the next magnitude (`nearestPlace_eq_top_iff`).

Rounding works on quotients of whole numbers, counted in least magnitudes. In how many ways a
rational number can be written as such a quotient makes no difference, and rounding keeps the order
(`nearestPlace_le_of_div_le`).
-/

namespace ScaleFactor.Binary64

/-! ## Values -/

/-- The least magnitude. -/
def least : ℚ := 1 / one

/-- The value of a finite number; an infinity and a NaN have none. -/
def rational? : Binary64 → Option ℚ
  | nan => none
  | number s p => if p.val = top then none else some (signedUnits s p * least)

/-- The bits of a number without sign and exponent, the leading one among them. -/
def significand : Binary64 → Nat
  | nan => 0
  | number _ p => if p.val < binade then p else binade + p % binade

/-- The least magnitude that is rounded to infinity. -/
def overflow : ℚ := 2 ^ 1024 - 2 ^ 970

/-- No finite number is nearer to `q` than `x` with its value `v`, and if another value is as near,
the significand of `x` is even. -/
structure RoundsTo (q : ℚ) (x : Binary64) (v : ℚ) : Prop where
  value : x.rational? = some v
  nearest : ∀ (y : Binary64) (w : ℚ), y.rational? = some w → |v - q| ≤ |w - q|
  even_of_tie : ∀ (y : Binary64) (w : ℚ), y.rational? = some w → w ≠ v → |w - q| = |v - q| →
    x.significand % 2 = 0

/-- A magnitude with a sign in front of it. -/
def signed (negative : Bool) (magnitude : ℚ) : ℚ := if negative then -magnitude else magnitude

theorem abs_signed (s : Bool) {r : ℚ} (hr : 0 ≤ r) : |signed s r| = r := by
  unfold signed
  split
  · rw [abs_neg, abs_of_nonneg hr]
  · exact abs_of_nonneg hr

@[simp] theorem signed_zero (s : Bool) : signed s 0 = 0 := by
  unfold signed
  split
  · exact neg_zero
  · rfl

theorem signed_signed (s : Bool) (a : ℚ) : signed s (signed s a) = a := by
  unfold signed
  split
  · exact neg_neg a
  · rfl

theorem abs_signed_sub (s : Bool) (a q : ℚ) : |signed s a - q| = |a - signed s q| := by
  unfold signed
  split
  · rw [← abs_neg, neg_sub, sub_neg_eq_add, sub_neg_eq_add, add_comm]
  · rfl

theorem abs_signed_sub_signed (s : Bool) (a r : ℚ) : |signed s a - signed s r| = |a - r| := by
  rw [abs_signed_sub, signed_signed]

theorem abs_signed_sub_of_ne {s t : Bool} (h : t ≠ s) {a r : ℚ} (ha : 0 ≤ a) (hr : 0 ≤ r) :
    |signed t a - signed s r| = a + r := by
  have hsum : 0 ≤ a + r := add_nonneg ha hr
  unfold signed
  cases s <;> cases t
  · exact absurd rfl h
  · calc |(-a) - r| = |-(a + r)| := by ring_nf
      _ = a + r := by rw [abs_neg, abs_of_nonneg hsum]
  · calc |a - (-r)| = |a + r| := by rw [sub_neg_eq_add]
      _ = a + r := abs_of_nonneg hsum
  · exact absurd rfl h

theorem least_pos : 0 < least := one_div_pos.2 (Nat.cast_pos.2 one_pos)

theorem quotient_nonneg (n d : Nat) : (0 : ℚ) ≤ n / d * least :=
  mul_nonneg (div_nonneg n.cast_nonneg d.cast_nonneg) least_pos.le

theorem one_mul_least : one * least = 1 := mul_one_div_cancel (Nat.cast_ne_zero.2 one_pos.ne')

theorem signedUnits_mul_least (s : Bool) (p : Nat) :
    signedUnits s p * least = signed s (units p * least) := by
  unfold signedUnits signed
  split
  · rw [Int.cast_neg, Int.cast_natCast, neg_mul]
  · rw [Int.cast_natCast]

theorem rational?_eq_some_iff {x : Binary64} {v : ℚ} : x.rational? = some v ↔
    ∃ s p, p.val ≠ top ∧ x = number s p ∧ v = signed s (units p * least) := by
  cases x with
  | nan => simp [rational?]
  | number s p =>
    rw [rational?, signedUnits_mul_least]
    constructor
    · intro h
      split at h
      · cases h
      · next htop => exact ⟨s, p, htop, rfl, (Option.some.inj h).symm⟩
    · rintro ⟨t, o, htop, heq, rfl⟩
      cases heq
      exact if_neg htop

theorem significand_number_mod_two (s : Bool) (p : Fin (top + 1)) :
    (number s p).significand % 2 = p.val % 2 := by
  unfold significand
  dsimp only
  rw [binade_eq]
  split <;> omega

/-! ## The nearest number -/

section RoundsTo

variable {n d : Nat} (hd : 0 < d)
include hd

/-- How far a magnitude is from a quotient, as a rational number. -/
theorem abs_sub_eq_gap (p : Nat) :
    |(units p * least - n / d * least : ℚ)| = gap n d p / d * least := by
  have hd' : (0 : ℚ) < d := Nat.cast_pos.2 hd
  have hsub : (units p * least - n / d * least : ℚ) = (units p * d - n : Int) / d * least := by
    push_cast
    field_simp
  rw [hsub, abs_mul, abs_div, abs_of_pos hd', abs_of_pos least_pos, gap, ← Int.cast_abs,
    Nat.cast_natAbs]

theorem gap_le_gap_iff {p q : Nat} : gap n d p ≤ gap n d q ↔
    |(units p * least - n / d * least : ℚ)| ≤ |(units q * least - n / d * least : ℚ)| := by
  have hd' : (0 : ℚ) < d := Nat.cast_pos.2 hd
  rw [abs_sub_eq_gap hd, abs_sub_eq_gap hd, mul_le_mul_iff_left₀ least_pos,
    div_le_div_iff_of_pos_right hd', Nat.cast_le]

/-- The number at the nearest place is what the quotient rounds to, with the sign of either. -/
theorem Nearest.roundsTo {p : Fin (top + 1)} (h : Nearest n d p) (hp : p.val ≠ top) (s : Bool) :
    RoundsTo (signed s (n / d * least)) (number s p) (signed s (units p * least)) := by
  have hr := quotient_nonneg n d
  have hunits (o : Nat) : 0 ≤ units o * least := mul_nonneg (Nat.cast_nonneg _) least_pos.le
  have hle {o : Nat} (ho : o ≤ top) := (gap_le_gap_iff hd).1 (h.gap_le o ho)
  -- zero is not nearer, and a number with the other sign is not nearer than zero
  have hzero : |units p * least - n / d * least| ≤ n / d * least := by
    have hle := hle (Nat.zero_le top)
    rwa [units_zero, Nat.cast_zero, zero_mul, zero_sub, abs_neg, abs_of_nonneg hr] at hle
  refine ⟨rational?_eq_some_iff.2 ⟨s, p, hp, rfl, rfl⟩, ?_, ?_⟩
  · intro y w hy
    obtain ⟨t, o, -, -, rfl⟩ := rational?_eq_some_iff.1 hy
    rw [abs_signed_sub_signed]
    by_cases hts : t = s
    · rw [hts, abs_signed_sub_signed]
      exact hle (Nat.le_of_lt_succ o.isLt)
    · rw [abs_signed_sub_of_ne hts (hunits o) hr]
      exact hzero.trans (le_add_of_nonneg_left (hunits o))
  · intro y w hy hne htie
    obtain ⟨t, o, -, -, rfl⟩ := rational?_eq_some_iff.1 hy
    rw [significand_number_mod_two]
    rw [abs_signed_sub_signed] at htie
    by_cases hts : t = s
    · rw [hts, abs_signed_sub_signed] at htie
      rw [hts] at hne
      have hgap := Nat.le_antisymm ((gap_le_gap_iff hd).2 htie.le) ((gap_le_gap_iff hd).2 htie.ge)
      refine h.even_of_tie o (Nat.le_of_lt_succ o.isLt) ?_ hgap
      intro heq
      rw [heq] at hne
      exact hne rfl
    · -- the other number is a zero of the other sign
      rw [abs_signed_sub_of_ne hts (hunits o) hr] at htie
      have ho : units o * least = 0 := le_antisymm (by linarith) (hunits o)
      rw [ho, signed_zero] at hne
      have hgap : gap n d 0 = gap n d p := by
        refine Nat.le_antisymm ((gap_le_gap_iff hd).2 ?_) (h.gap_le 0 (Nat.zero_le top))
        rw [units_zero, Nat.cast_zero, zero_mul, zero_sub, abs_neg, abs_of_nonneg hr, ← htie, ho,
          zero_add]
      refine h.even_of_tie 0 (Nat.zero_le top) ?_ hgap
      intro heq
      rw [← heq, units_zero, Nat.cast_zero, zero_mul, signed_zero] at hne
      exact hne rfl

end RoundsTo

/-- What lies between two numbers that are equally far away is nearer. -/
theorem abs_sub_lt_of_between {a b c q : ℚ} (hab : a < b) (hbc : b < c) (h : |a - q| = |c - q|) :
    |b - q| < |a - q| := by
  rcases abs_cases (a - q) with ⟨ha, hqa⟩ | ⟨ha, hqa⟩ <;>
    rcases abs_cases (c - q) with ⟨hc, hqc⟩ | ⟨hc, hqc⟩ <;>
    rw [abs_lt] <;> constructor <;> linarith

/-- Two numbers with even significands have another one between them. -/
theorem RoundsTo.not_lt {q v w : ℚ} {s : Bool} {p o : Fin (top + 1)}
    (hp : RoundsTo q (number s p) v) (ho : RoundsTo q (number s o) w) : ¬p < o := by
  intro hlt
  obtain ⟨_, _, -, ⟨⟩, rfl⟩ := rational?_eq_some_iff.1 hp.value
  obtain ⟨_, _, htop, ⟨⟩, rfl⟩ := rational?_eq_some_iff.1 ho.value
  have units_lt {a b : Nat} (h : a < b) : (units a * least : ℚ) < units b * least :=
    mul_lt_mul_of_pos_right (Nat.cast_lt.2 (units_lt_units h)) least_pos
  have hne : signed s (units o * least) ≠ signed s (units p * least) := by
    intro heq
    have hunits := congrArg (signed s) heq
    rw [signed_signed, signed_signed] at hunits
    exact (units_lt hlt).ne' hunits
  have htie := le_antisymm (hp.nearest _ _ ho.value) (ho.nearest _ _ hp.value)
  have hpeven := hp.even_of_tie _ _ ho.value hne htie.symm
  have hoeven := ho.even_of_tie _ _ hp.value hne.symm htie
  rw [significand_number_mod_two] at hpeven hoeven
  -- both places are even, so the one behind the first comes before the second, and is nearer
  have hbetween : p.val + 1 < o.val := by omega
  let m : Fin (top + 1) := ⟨p.val + 1, by omega⟩
  have hm : (number s m).rational? = some (signed s (units m * least)) :=
    rational?_eq_some_iff.2 ⟨s, m, (show p.val + 1 ≠ top by omega), rfl, rfl⟩
  have hle := hp.nearest _ _ hm
  rw [abs_signed_sub, abs_signed_sub] at htie hle
  have hnear := abs_sub_lt_of_between (units_lt (Nat.lt_add_one p.val)) (units_lt hbetween) htie
  exact absurd hle (not_le.2 hnear)

/-- A rational number rounds to one number of a sign at most. -/
theorem RoundsTo.unique {q v w : ℚ} {s : Bool} {p o : Fin (top + 1)}
    (hp : RoundsTo q (number s p) v) (ho : RoundsTo q (number s o) w) : p = o :=
  le_antisymm (Fin.not_lt.1 (ho.not_lt hp)) (Fin.not_lt.1 (hp.not_lt ho))

/-! ## Order -/

/-- A result of no more than half the least magnitude is rounded to zero. -/
theorem nearestPlace_eq_zero {n d : Nat} (hd : 0 < d) (h : 2 * n ≤ d) : nearestPlace n d = 0 := by
  have hlt : n < d := by omega
  have hdoublings : doublings n d = 0 := by
    rw [doublings, Nat.div_eq_of_lt hlt, Nat.log2_zero, Nat.zero_sub]
  have hone : d * Nat.pow 2 0 = d := Nat.mul_one d
  have hwhole : nearestWhole n d = 0 := by
    rw [nearestWhole, Nat.mod_eq_of_lt hlt, Nat.div_eq_of_lt hlt, if_neg (Nat.not_lt.2 h)]
    split <;> rfl
  rw [nearestPlace, hdoublings, hone, hwhole, Nat.zero_mul]
  exact Nat.min_eq_right (Nat.zero_le top)

/-- **Rounding keeps the order of quotients.** -/
theorem nearestPlace_le_of_div_le {n d m e : Nat} (hd : 0 < d) (he : 0 < e)
    (h : (n / d : ℚ) ≤ m / e) : nearestPlace n d ≤ nearestPlace m e := by
  have hcross : n * e ≤ m * d := by
    rw [div_le_div_iff₀ (Nat.cast_pos.2 hd) (Nat.cast_pos.2 he)] at h
    exact_mod_cast h
  calc nearestPlace n d = nearestPlace (n * e) (d * e) := (nearestPlace_mul_right n d he).symm
    _ ≤ nearestPlace (m * d) (d * e) := nearestPlace_mono hcross _
    _ = nearestPlace (m * d) (e * d) := by rw [Nat.mul_comm d e]
    _ = nearestPlace m e := nearestPlace_mul_right m e hd

theorem nearestPlace_of_nonpos {n d : Nat} (hd : 0 < d) (h : n / d * least ≤ 0) :
    nearestPlace n d = 0 := by
  have hd' : (0 : ℚ) < d := Nat.cast_pos.2 hd
  have hn : (n : ℚ) ≤ 0 := by
    have hdiv : (n / d : ℚ) ≤ 0 := le_of_mul_le_mul_right (h.trans_eq (zero_mul _).symm) least_pos
    rwa [div_le_iff₀ hd', zero_mul] at hdiv
  have hzero : n = 0 := Nat.le_zero.1 (by exact_mod_cast hn)
  exact nearestPlace_eq_zero hd (by omega)

/-- **Rounding keeps the order of rational numbers**, whatever their signs are. -/
theorem le_round_of_le {s t : Bool} {n d m e : Nat} (hd : 0 < d) (he : 0 < e)
    (h : signed s (n / d * least) ≤ signed t (m / e * least)) :
    (round s n d).le (round t m e) = true := by
  have hn := quotient_nonneg n d
  have hm := quotient_nonneg m e
  refine le_eq_true_iff.2 ⟨_, _, rfl, rfl, ?_⟩
  cases s <;> cases t <;>
    simp only [signed, if_true, if_false, Bool.false_eq_true, neg_le_neg_iff] at h ⊢
  · have hplace := nearestPlace_le_of_div_le hd he (le_of_mul_le_mul_right h least_pos)
    omega
  · -- only zero is as great as a number with a plus and as small as one with a minus
    have hplace := nearestPlace_of_nonpos hd (h.trans (neg_nonpos_of_nonneg hm))
    have hplace' := nearestPlace_of_nonpos he (neg_nonneg.1 (hn.trans h))
    omega
  · omega
  · have hplace := nearestPlace_le_of_div_le he hd (le_of_mul_le_mul_right h least_pos)
    omega

/-! ## Overflow -/

/-- How often the distance between magnitudes has doubled at the greatest finite one. -/
def lastDoublings : Nat := 2045

theorem units_top : units top = 2 * binade * Nat.pow 2 lastDoublings := by
  have hplace : top = lastDoublings * binade + 2 * binade := by decide
  rw [hplace]
  exact units_of_significand lastDoublings (Nat.le_mul_of_pos_left binade two_pos) le_rfl

theorem units_top_sub_one : units (top - 1) = (2 * binade - 1) * Nat.pow 2 lastDoublings := by
  have hplace : top - 1 = lastDoublings * binade + (2 * binade - 1) := by decide
  rw [hplace]
  exact units_of_significand lastDoublings (by decide) (Nat.sub_le _ _)

/-- A result is rounded to infinity from half a step above the greatest finite magnitude on. -/
theorem nearestPlace_eq_top_iff_le {n d : Nat} (hd : 0 < d) :
    nearestPlace n d = top ↔ (4 * binade - 1) * (Nat.pow 2 lastDoublings * d) ≤ 2 * n := by
  have hnear := nearest_nearestPlace n hd
  have hlast := hnear.gap_le (top - 1) (Nat.sub_le _ _)
  have hpow (k : Nat) : 0 < Nat.pow 2 k := Nat.two_pow_pos k
  have hstep : 0 < Nat.pow 2 lastDoublings * d := Nat.mul_pos (hpow lastDoublings) hd
  have hunits : units top * d = 2 * binade * (Nat.pow 2 lastDoublings * d) := by
    rw [units_top, Nat.mul_assoc]
  have hunits' : units (top - 1) * d = (2 * binade - 1) * (Nat.pow 2 lastDoublings * d) := by
    rw [units_top_sub_one, Nat.mul_assoc]
  generalize Nat.pow 2 lastDoublings * d = step at hstep hunits hunits' ⊢
  rw [binade_eq] at hunits hunits' ⊢
  constructor
  · intro htop
    rw [htop] at hlast
    unfold gap at hlast
    omega
  · intro hn
    by_contra hne
    have hgap := hnear.gap_le top le_rfl
    rcases Nat.lt_or_eq_of_le (Nat.le_sub_one_of_lt (Nat.lt_of_le_of_ne hnear.le_top hne)) with
      hlt | heq
    · -- the last finite magnitude would be nearer
      have hlow := units_mul_lt_units_mul hd hlt
      unfold gap at hlast
      omega
    · -- at the tie the last finite magnitude, an odd place, gives way
      have htie : gap n d top = gap n d (nearestPlace n d) := by
        rw [heq] at hgap ⊢
        unfold gap at hgap ⊢
        omega
      have heven := hnear.even_of_tie top le_rfl (Ne.symm hne) htie
      rw [heq] at heven
      exact absurd heven (by decide)

theorem two_mul_overflow :
    2 * overflow = (4 * binade - 1 : Nat) * (Nat.pow 2 lastDoublings : Nat) * least := by
  have hbits : (4 * binade - 1 : Nat) = 2 ^ 54 - 1 := by decide
  have hlast : lastDoublings = 971 + scaleBits := by decide
  have hone : (one : ℚ) = 2 ^ scaleBits := by
    unfold one
    generalize scaleBits = k
    exact Nat.cast_pow 2 k
  have hleast := one_mul_least
  have hpow : ((Nat.pow 2 lastDoublings : Nat) : ℚ) * least = 2 ^ 971 := by
    rw [hlast]
    rw [hone] at hleast
    generalize scaleBits = k at hleast ⊢
    calc ((Nat.pow 2 (971 + k) : Nat) : ℚ) * least = 2 ^ (971 + k) * least := by
          rw [Nat.pow_eq, Nat.cast_pow, Nat.cast_two]
      _ = 2 ^ 971 * (2 ^ k * least) := by rw [pow_add, mul_assoc]
      _ = 2 ^ 971 := by rw [hleast, mul_one]
  have hhigh : (2 : ℚ) ^ 1024 = 2 ^ 54 * 2 ^ 970 := by rw [← pow_add]
  have hlow : (2 : ℚ) ^ 971 = 2 * 2 ^ 970 := pow_succ' 2 970
  rw [mul_assoc, hpow, hbits, overflow, hhigh, hlow]
  generalize (2 : ℚ) ^ 970 = x
  push_cast
  ring

/-- **From `overflow` on, and only there, rational numbers are rounded to infinity.** -/
theorem nearestPlace_eq_top_iff {n d : Nat} (hd : 0 < d) :
    nearestPlace n d = top ↔ overflow ≤ n / d * least := by
  have hd' : (0 : ℚ) < d := Nat.cast_pos.2 hd
  have hdouble := two_mul_overflow
  rw [nearestPlace_eq_top_iff_le hd]
  generalize Nat.pow 2 lastDoublings = step at hdouble ⊢
  calc (4 * binade - 1) * (step * d) ≤ 2 * n
      ↔ ((4 * binade - 1 : Nat) * step * d : ℚ) ≤ 2 * n := by
        rw [← Nat.mul_assoc]
        exact_mod_cast Iff.rfl
    _ ↔ ((4 * binade - 1 : Nat) * step : ℚ) ≤ 2 * n / d := (le_div_iff₀ hd').symm
    _ ↔ 2 * overflow ≤ 2 * n / d * least := by
        rw [hdouble, mul_le_mul_iff_left₀ least_pos]
    _ ↔ 2 * overflow ≤ 2 * (n / d * least) := by rw [mul_div_assoc, mul_assoc]
    _ ↔ overflow ≤ n / d * least := mul_le_mul_iff_right₀ two_pos

end ScaleFactor.Binary64
