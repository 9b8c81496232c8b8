import ScaleFactor.Proofs.Binary64.Whole

/-!
# The nearest magnitude

Rounding is meant to take the magnitude that is nearest to the exact result, and of two that are
equally near the one at an even place. `Nearest` says so over all places without computing anything,
at most one place is the nearest in this sense (`Nearest.unique`), and the place that is computed is
(`nearest_nearestPlace`).

An exact result lies between two neighbouring magnitudes, which are found by cutting off what is left
of it after the doublings (`units_floorPlace`, `units_floorPlace_succ`). As the exact values increase
from place to place, no other magnitude comes nearer than these two.
-/

namespace ScaleFactor.Binary64

/-- How far the magnitude at place `p` is from `n / d` least magnitudes, counted in `d`-ths. -/
def gap (n d p : Nat) : Nat := (units p * d - n : Int).natAbs

/-- No place is nearer to `n / d` least magnitudes than `p`, and if another one is as near, `p` is
even. -/
structure Nearest (n d p : Nat) : Prop where
  le_top : p ≤ top
  gap_le : ∀ q ≤ top, gap n d p ≤ gap n d q
  even_of_tie : ∀ q ≤ top, q ≠ p → gap n d q = gap n d p → p % 2 = 0

theorem units_mul_lt_units_mul {p q d : Nat} (hd : 0 < d) (h : p < q) :
    units p * d < units q * d := Nat.mul_lt_mul_of_pos_right (units_lt_units h) hd

theorem units_mul_le_units_mul {p q : Nat} (d : Nat) (h : p ≤ q) : units p * d ≤ units q * d := by
  rcases Nat.lt_or_eq_of_le h with hlt | rfl
  · exact Nat.mul_le_mul_right d (units_lt_units hlt).le
  · exact le_rfl

/-- Two even places have another one between them, which would be nearer than both. -/
theorem Nearest.not_lt {n d p q : Nat} (hd : 0 < d) (hp : Nearest n d p) (hq : Nearest n d q) :
    ¬p < q := by
  intro hlt
  have htie : gap n d q = gap n d p :=
    Nat.le_antisymm (hq.gap_le p hp.le_top) (hp.gap_le q hq.le_top)
  have hpeven := hp.even_of_tie q hq.le_top hlt.ne' htie
  have hqeven := hq.even_of_tie p hp.le_top hlt.ne htie.symm
  have hbetween : p + 1 < q := by omega
  have hnearer := hp.gap_le (p + 1) (hbetween.le.trans hq.le_top)
  have hlow := units_mul_lt_units_mul hd (Nat.lt_add_one p)
  have hhigh := units_mul_lt_units_mul hd hbetween
  unfold gap at htie hnearer
  omega

theorem Nearest.unique {n d p q : Nat} (hd : 0 < d) (hp : Nearest n d p) (hq : Nearest n d q) :
    p = q :=
  Nat.le_antisymm (Nat.not_lt.1 (hq.not_lt hd hp)) (Nat.not_lt.1 (hp.not_lt hd hq))

/-! ## The neighbours of a result -/

theorem units_add_significand (k : Nat) {m : Nat} (hhigh : m ≤ 2 * binade)
    (hlow : 0 < k → binade ≤ m) : units (k * binade + m) = m * Nat.pow 2 k := by
  by_cases hm : binade ≤ m
  · exact units_of_significand k hm hhigh
  · obtain rfl : k = 0 := by
      by_contra hk
      exact hm (hlow (Nat.pos_of_ne_zero hk))
    have hone : Nat.pow 2 0 = 1 := rfl
    rw [Nat.zero_mul, Nat.zero_add, units_of_lt (Nat.lt_of_not_le hm), hone, Nat.mul_one]

/-- How far it is from magnitude to magnitude at `n / d` least magnitudes, counted in `d`-ths. -/
def spacing (n d : Nat) : Nat := d * Nat.pow 2 (doublings n d)

theorem spacing_pos (n : Nat) {d : Nat} (hd : 0 < d) : 0 < spacing n d :=
  Nat.mul_pos hd (Nat.two_pow_pos _)

/-- The place of the magnitude that is left of `n / d` least magnitudes when all bits behind the
significand are cut off. -/
def floorPlace (n d : Nat) : Nat := doublings n d * binade + n / spacing n d

theorem units_floorPlace (n d : Nat) :
    units (floorPlace n d) * d = n / spacing n d * spacing n d := by
  have hunits := units_add_significand (doublings n d) (quotient_lt n d).le le_quotient
  rw [← spacing] at hunits
  rw [floorPlace, hunits, Nat.mul_assoc, Nat.mul_comm (Nat.pow 2 _) d, ← spacing]

theorem units_floorPlace_succ (n d : Nat) :
    units (floorPlace n d + 1) * d = (n / spacing n d + 1) * spacing n d := by
  have hunits := units_add_significand (doublings n d) (Nat.succ_le_of_lt (quotient_lt n d))
    fun h => (le_quotient h).trans (Nat.le_succ _)
  rw [← spacing] at hunits
  rw [floorPlace, Nat.add_assoc, hunits, Nat.mul_assoc, Nat.mul_comm (Nat.pow 2 _) d, ← spacing]

/-- Which of the two neighbours is taken depends on what was cut off. -/
theorem nearestPlace_eq (n d : Nat) : nearestPlace n d = min top
    (if 2 * (n % spacing n d) < spacing n d then floorPlace n d
      else if spacing n d < 2 * (n % spacing n d) then floorPlace n d + 1
      else floorPlace n d + n / spacing n d % 2) := by
  unfold nearestPlace nearestWhole floorPlace
  rw [← spacing]
  split_ifs with hlow hhigh
  · rfl
  · rw [Nat.add_assoc]
  · rw [Nat.add_assoc]

/-! ## The nearest of them -/

theorem gap_floorPlace (n d : Nat) : gap n d (floorPlace n d) = n % spacing n d := by
  have hdivmod := Nat.div_add_mod' n (spacing n d)
  have hfloor := units_floorPlace n d
  unfold gap
  omega

section Gaps

variable (n : Nat) {d : Nat} (hd : 0 < d)
include hd

/-- Up to the result a greater magnitude is nearer. -/
theorem gap_lt_of_le_floorPlace {p q : Nat} (hp : p ≤ floorPlace n d) (h : q < p) :
    gap n d p < gap n d q := by
  have hlow := units_mul_lt_units_mul hd h
  have hhigh := units_mul_le_units_mul d hp
  rw [units_floorPlace] at hhigh
  have hfloor := Nat.div_mul_le_self n (spacing n d)
  unfold gap
  omega

theorem gap_floorPlace_succ :
    gap n d (floorPlace n d + 1) = spacing n d - n % spacing n d := by
  have hdivmod := Nat.div_add_mod' n (spacing n d)
  have hrem := Nat.mod_lt n (spacing_pos n hd)
  have hsucc := units_floorPlace_succ n d
  rw [Nat.succ_mul] at hsucc
  unfold gap
  omega

/-- Beyond the result a lesser magnitude is nearer. -/
theorem gap_lt_of_floorPlace_lt {q : Nat} (h : floorPlace n d + 1 < q) :
    gap n d (floorPlace n d + 1) < gap n d q := by
  have hlow := units_mul_lt_units_mul hd h
  have hrem := Nat.mod_lt n (spacing_pos n hd)
  have hdivmod := Nat.div_add_mod' n (spacing n d)
  have hsucc := units_floorPlace_succ n d
  rw [Nat.succ_mul] at hsucc
  unfold gap
  omega

end Gaps

theorem floorPlace_mod_two (n d : Nat) : floorPlace n d % 2 = n / spacing n d % 2 := by
  unfold floorPlace
  rw [binade_eq]
  omega

/-- One of the two neighbours is the nearest place if it is no farther than the other one, and even
if it is no nearer. -/
theorem nearest_of_neighbours {n d p : Nat} (hd : 0 < d) (htop : floorPlace n d < top)
    (hp : p = floorPlace n d ∨ p = floorPlace n d + 1)
    (hfloor : gap n d p ≤ gap n d (floorPlace n d))
    (hsucc : gap n d p ≤ gap n d (floorPlace n d + 1))
    (heven : gap n d (floorPlace n d) = gap n d (floorPlace n d + 1) → p % 2 = 0) :
    Nearest n d p := by
  -- every other place is beyond one of the neighbours
  have hplaces (q : Nat) : q = floorPlace n d ∨ q = floorPlace n d + 1 ∨ gap n d p < gap n d q := by
    rcases Nat.lt_trichotomy q (floorPlace n d) with hlt | heq | hgt
    · exact .inr (.inr (hfloor.trans_lt (gap_lt_of_le_floorPlace n hd le_rfl hlt)))
    · exact .inl heq
    · rcases Nat.lt_or_eq_of_le (Nat.succ_le_of_lt hgt) with hlt | heq
      · exact .inr (.inr (hsucc.trans_lt (gap_lt_of_floorPlace_lt n hd hlt)))
      · exact .inr (.inl heq.symm)
  refine ⟨by omega, ?_, ?_⟩
  · intro q _
    rcases hplaces q with rfl | rfl | hlt
    · exact hfloor
    · exact hsucc
    · exact hlt.le
  · intro q _ hne htie
    apply heven
    rcases hp with rfl | rfl <;> rcases hplaces q with rfl | rfl | hlt
    · exact absurd rfl hne
    · exact htie.symm
    · exact absurd htie hlt.ne'
    · exact htie
    · exact absurd rfl hne
    · exact absurd htie hlt.ne'

/-- Where the greatest magnitudes are not above the result, infinity is the nearest. -/
theorem nearest_top {n d : Nat} (hd : 0 < d) (h : top ≤ floorPlace n d) : Nearest n d top := by
  refine ⟨le_rfl, ?_, ?_⟩
  · intro q hq
    rcases Nat.lt_or_eq_of_le hq with hq | rfl
    · exact (gap_lt_of_le_floorPlace n hd h hq).le
    · exact le_rfl
  · intro _ _ _ _
    decide

/-- **Rounding takes the nearest magnitude, and at a tie the even place.** -/
theorem nearest_nearestPlace (n : Nat) {d : Nat} (hd : 0 < d) :
    Nearest n d (nearestPlace n d) := by
  rw [nearestPlace_eq]
  rcases Nat.lt_or_ge (floorPlace n d) top with hlt | hge
  · have hfloor := gap_floorPlace n d
    have hsucc := gap_floorPlace_succ n hd
    have hmod := floorPlace_mod_two n d
    have hrem := Nat.mod_lt n (spacing_pos n hd)
    split_ifs with hbelow habove
    · rw [Nat.min_eq_right hlt.le]
      apply nearest_of_neighbours hd hlt (.inl rfl) <;> omega
    · rw [Nat.min_eq_right hlt]
      apply nearest_of_neighbours hd hlt (.inr rfl) <;> omega
    · -- half of the spacing was cut off, so both neighbours are as near
      have htie : gap n d (floorPlace n d) = gap n d (floorPlace n d + 1) := by omega
      have hle : floorPlace n d + floorPlace n d % 2 ≤ top := by omega
      rw [← hmod, Nat.min_eq_right hle]
      rcases Nat.mod_two_eq_zero_or_one (floorPlace n d) with heven | hodd
      · rw [heven, Nat.add_zero]
        exact nearest_of_neighbours hd hlt (.inl rfl) le_rfl htie.le fun _ => heven
      · rw [hodd]
        exact nearest_of_neighbours hd hlt (.inr rfl) htie.ge le_rfl fun _ => by omega
  · have hplace : ∀ p, floorPlace n d ≤ p → min top p = top := fun p hp =>
      Nat.min_eq_left (hge.trans hp)
    have htop := nearest_top hd hge
    split_ifs
    · rwa [hplace _ le_rfl]
    · rwa [hplace _ (Nat.le_succ _)]
    · rwa [hplace _ (Nat.le_add_right _ _)]

/-! ## How far rounding goes -/

/-- Whole numbers of least magnitudes are rounded by a part of `2 ^ 53` of them at most, unless they
are rounded to infinity. -/
theorem gap_nearestPlace_le {n : Nat} (h : nearestPlace n 1 ≠ top) :
    2 * binade * gap n 1 (nearestPlace n 1) ≤ n := by
  have hnearest := nearest_nearestPlace n Nat.one_pos
  have hlt : floorPlace n 1 < top := by
    by_contra hge
    apply h
    refine hnearest.unique Nat.one_pos ?_
    exact nearest_top Nat.one_pos (Nat.not_lt.1 hge)
  have hfloor := hnearest.gap_le _ hlt.le
  have hsucc := hnearest.gap_le _ (Nat.succ_le_of_lt hlt)
  rw [gap_floorPlace] at hfloor
  rw [gap_floorPlace_succ n Nat.one_pos] at hsucc
  generalize gap n 1 (nearestPlace n 1) = g at *
  rcases Nat.eq_zero_or_pos (doublings n 1) with hzero | hpos
  · -- the magnitudes are one apart, and nothing is cut off
    have hone : spacing n 1 = 1 := by
      rw [spacing, hzero]
    rw [hone, Nat.mod_one] at hfloor
    rw [Nat.le_zero.1 hfloor]
    exact Nat.zero_le n
  · have hrem := Nat.mod_lt n (spacing_pos n Nat.one_pos)
    calc 2 * binade * g = binade * (2 * g) := by ring
      _ ≤ binade * spacing n 1 := Nat.mul_le_mul_left binade (by omega)
      _ ≤ n / spacing n 1 * spacing n 1 := Nat.mul_le_mul_right _ (le_quotient hpos)
      _ ≤ n := Nat.div_mul_le_self n _

end ScaleFactor.Binary64
