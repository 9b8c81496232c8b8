import ScaleFactor.Binary64.Basic

/-!
# Rounding to binary64

Every operation computes its exact result as a quotient of whole numbers, counted in least
magnitudes, and rounds it once: to the nearest magnitude, a tie going to the even place (which is
the even significand). Infinity stands in the list of magnitudes where the next power of two would
be, so results from half a step above the largest finite magnitude on become infinite by the same
rule.

`nearestPlace_units` says that rounding leaves every magnitude alone.
-/

namespace ScaleFactor.Binary64

/-- The whole number nearest to `n / d`; of two that are equally near the even one. -/
def nearestWhole (n d : Nat) : Nat :=
  if 2 * (n % d) < d then n / d
  else if d < 2 * (n % d) then n / d + 1
  else n / d + n / d % 2

/-- How often the distance between magnitudes has doubled at `n / d` least magnitudes. -/
def doublings (n d : Nat) : Nat := (n / d).log2 - fractionBits

/-- The place of the magnitude nearest to `n / d` least magnitudes. -/
def nearestPlace (n d : Nat) : Nat :=
  min top (doublings n d * binade + nearestWhole n (d * Nat.pow 2 (doublings n d)))

theorem nearestPlace_le_top (n d : Nat) : nearestPlace n d ≤ top := Nat.min_le_left ..

/-- The number of the given sign nearest to `n / d` least magnitudes. -/
def round (negative : Bool) (n d : Nat) : Binary64 :=
  number negative ⟨nearestPlace n d, Nat.lt_succ_of_le (nearestPlace_le_top n d)⟩

theorem nearestWhole_mul (q : Nat) {d : Nat} (hd : 0 < d) : nearestWhole (q * d) d = q := by
  simp [nearestWhole, Nat.mul_mod_left, Nat.mul_div_cancel q hd, hd]

/-- A magnitude is its own rounding. -/
theorem nearestPlace_units {p : Nat} (h : p ≤ top) : nearestPlace (units p) 1 = p := by
  unfold nearestPlace doublings
  rw [Nat.div_one, Nat.one_mul]
  by_cases hp : p < binade
  · have hlog : p.log2 - fractionBits = 0 := by
      by_cases h0 : p = 0
      · simp [h0]
      · have := (Nat.log2_lt h0).2 hp
        omega
    have := nearestWhole_mul p Nat.one_pos
    rw [Nat.mul_one] at this
    rw [units_of_lt hp, hlog, Nat.zero_mul, Nat.zero_add]
    show min top (nearestWhole p 1) = p
    rw [this]
    exact Nat.min_eq_right h
  · have hu : units p = (binade + p % binade) * Nat.pow 2 (p / binade - 1) := by
      simp [units, hp]
    generalize hk : p / binade - 1 = k at hu
    have hm : p % binade < binade := Nat.mod_lt _ (Nat.two_pow_pos _)
    have hpow : 0 < Nat.pow 2 k := Nat.two_pow_pos k
    have hlog : (units p).log2 - fractionBits = k := by
      have hne : units p ≠ 0 := by
        rw [hu]
        exact Nat.ne_of_gt (Nat.mul_pos (by omega) hpow)
      have hlow : Nat.pow 2 (fractionBits + k) ≤ units p := by
        rw [hu, show Nat.pow 2 (fractionBits + k) = binade * Nat.pow 2 k from Nat.pow_add ..]
        exact Nat.mul_le_mul_right _ (Nat.le_add_right _ _)
      have hhigh : units p < Nat.pow 2 (fractionBits + k + 1) := by
        rw [hu, show Nat.pow 2 (fractionBits + k + 1) = Nat.pow 2 (fractionBits + k) * 2 from rfl,
          show Nat.pow 2 (fractionBits + k) = binade * Nat.pow 2 k from Nat.pow_add ..,
          Nat.mul_right_comm]
        exact Nat.mul_lt_mul_of_pos_right (by omega) hpow
      have h1 := (Nat.le_log2 hne).2 hlow
      have h2 := (Nat.log2_lt hne).2 hhigh
      omega
    rw [hlog, hu, nearestWhole_mul _ hpow]
    have hp' : k * binade + (binade + p % binade) = p := by
      simp only [binade_eq] at *
      omega
    rw [hp']
    exact Nat.min_eq_right h

end ScaleFactor.Binary64
