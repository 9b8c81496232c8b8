import ScaleFactor.Proofs.Binary64.Sums

/-!
# How far rounding goes in a sum

A running sum that is finite in the end was finite all the time, and every addition took it away from
the exact sum by a part of `2 ^ 53` of its result at most (`Extended.rounded_error`). The additions
that follow take over what it was off by and add their own part, so that `n` additions in a row can be
off by the part `drift n` of all the magnitudes (`foldl_add_error`).
-/

namespace ScaleFactor.Binary64

/-- The magnitude of an exact value, where it is finite. -/
def Extended.magnitude : Extended → Nat
  | finite a => a.natAbs
  | _ => 0

/-- The part of the magnitudes by which `n` additions in a row can be off. -/
def drift (n : Nat) : ℚ := (1 + 1 / 2 ^ 53) ^ n - 1

theorem drift_nonneg (n : Nat) : 0 ≤ drift n := by
  unfold drift
  have := one_le_pow₀ (by norm_num : (1 : ℚ) ≤ 1 + 1 / 2 ^ 53) (n := n)
  linarith

theorem drift_succ (n : Nat) : drift (n + 1) = (1 + 1 / 2 ^ 53) * drift n + 1 / 2 ^ 53 := by
  unfold drift
  ring

theorem rounded_eq_number (a : Int) : ∃ p : Fin (top + 1),
    p.val = nearestPlace a.natAbs 1 ∧ (Extended.finite a).rounded = number (a < 0) p :=
  ⟨_, rfl, rfl⟩

/-- What is rounded to a finite number is finite, and is off by a part of `2 ^ 53` at most. -/
theorem Extended.rounded_error {e : Extended} {c : Int} (h : e.rounded.extended = .finite c) :
    ∃ a, e = .finite a ∧ |(c - a : ℚ)| ≤ 1 / 2 ^ 53 * |(a : ℚ)| := by
  cases e with
  | nan => cases h
  | infinite s =>
    rw [rounded, extended_infinite] at h
    cases h
  | finite a =>
    refine ⟨a, rfl, ?_⟩
    obtain ⟨p, hp, hrounded⟩ := rounded_eq_number a
    have htop : p.val ≠ top := by
      intro htop
      rw [hrounded, extended_of_eq_top htop] at h
      cases h
    have hc : signedUnits (a < 0) p = c := by
      rw [hrounded, extended_of_ne_top htop] at h
      exact Extended.finite.inj h
    rw [hp] at htop hc
    have hgap : gap a.natAbs 1 (nearestPlace a.natAbs 1) = (c - a).natAbs := by
      rw [← hc]
      unfold gap signedUnits
      simp only [decide_eq_true_eq]
      split <;> omega
    have hpart : 2 ^ 53 * (c - a).natAbs ≤ a.natAbs := by
      rw [← hgap]
      exact gap_nearestPlace_le htop
    have hcast : (2 ^ 53 * (c - a).natAbs : ℚ) ≤ a.natAbs := by exact_mod_cast hpart
    rw [Nat.cast_natAbs, Nat.cast_natAbs, Int.cast_abs, Int.cast_abs, Int.cast_sub] at hcast
    linarith

theorem Extended.eq_finite_of_add {e r : Extended} {a : Int} (h : e + r = finite a) :
    ∃ b c, e = finite b ∧ r = finite c ∧ b + c = a := by
  cases e with
  | nan => cases h
  | infinite s =>
    cases r with
    | nan => cases h
    | infinite t =>
      have : (if s = t then infinite s else nan) = finite a := h
      split at this <;> cases this
    | finite b => cases h
  | finite b =>
    cases r with
    | nan => cases h
    | infinite t => cases h
    | finite c => exact ⟨b, c, rfl, rfl, Extended.finite.inj h⟩

/-- One more addition in front: the others take over what it is off by, and a greater magnitude. -/
theorem drift_step {n : Nat} {a b near r c total : ℚ} (htotal : 0 ≤ total)
    (hfirst : |near - (a + b)| ≤ 1 / 2 ^ 53 * |a + b|)
    (hrest : |c - (near + r)| ≤ drift n * (|near| + total)) :
    |c - (a + (b + r))| ≤ drift (n + 1) * (|a| + (|b| + total)) := by
  have hd := drift_nonneg n
  have hd' := drift_nonneg (n + 1)
  have hnear : |near| ≤ (1 + 1 / 2 ^ 53) * |a + b| := by
    have := abs_sub_abs_le_abs_sub near (a + b)
    linarith
  have hgrow : drift n ≤ drift (n + 1) := by
    rw [drift_succ]
    linarith
  calc |c - (a + (b + r))|
      = |(c - (near + r)) + (near - (a + b))| := by congr 1; ring
    _ ≤ |c - (near + r)| + |near - (a + b)| := abs_add_le _ _
    _ ≤ drift n * ((1 + 1 / 2 ^ 53) * |a + b| + total) + 1 / 2 ^ 53 * |a + b| := by
        have := mul_le_mul_of_nonneg_left (add_le_add_left hnear total) hd
        linarith
    _ = drift (n + 1) * |a + b| + drift n * total := by
        rw [drift_succ]
        ring
    _ ≤ drift (n + 1) * |a + b| + drift (n + 1) * total :=
        add_le_add_right (mul_le_mul_of_nonneg_right hgrow htotal) _
    _ ≤ drift (n + 1) * (|a| + (|b| + total)) := by
        have := mul_le_mul_of_nonneg_left (abs_add_le a b) hd'
        linarith

theorem Extended.cast_magnitude_finite (a : Int) : ((finite a).magnitude : ℚ) = |(a : ℚ)| := by
  rw [magnitude, Nat.cast_natAbs, Int.cast_abs]

/-- **A finite running sum is near the exact sum.** It is off by no more than `drift` allows for as
many additions, as a part of all the magnitudes. -/
theorem foldl_add_error {x : Binary64} (hx : x.dropZeroSign = x) {ys : List Binary64} {c : Int}
    (h : (ys.foldl (· + ·) x).extended = .finite c) :
    ∃ a, x.extended + (ys.map extended).sum = .finite a ∧
      |(c - a : ℚ)| ≤ drift ys.length *
        (x.extended.magnitude + (ys.map fun y => y.extended.magnitude).sum : Nat) := by
  induction ys generalizing x with
  | nil =>
    refine ⟨c, ?_, ?_⟩
    · rwa [List.map_nil, List.sum_nil, add_zero]
    · simp [drift]
  | cons y ys ih =>
    obtain ⟨c', hc', hrest⟩ := ih (dropZeroSign_add hx y) h
    obtain ⟨near, r, hnear, hr, rfl⟩ := Extended.eq_finite_of_add hc'
    obtain ⟨s, hs, hfirst⟩ := Extended.rounded_error (add_eq_rounded hx y ▸ hnear)
    obtain ⟨a, b, ha, hb, rfl⟩ := Extended.eq_finite_of_add hs
    refine ⟨a + (b + r), ?_, ?_⟩
    · rw [List.map_cons, List.sum_cons, ha, hb, hr, Extended.finite_add_finite,
        Extended.finite_add_finite]
    · rw [hnear] at hrest
      rw [ha, List.map_cons, List.sum_cons, hb]
      simp only [Nat.cast_add, Int.cast_add, Extended.cast_magnitude_finite] at hfirst hrest ⊢
      exact drift_step (Nat.cast_nonneg _) hfirst hrest

/-- The first addition, to zero, changes nothing, so that a sum has one rounding less than numbers. -/
theorem sum_error {ys : List Binary64} {c : Int}
    (h : (ys.foldl (· + ·) zero).extended = .finite c) :
    ∃ a, (ys.map extended).sum = .finite a ∧
      |(c - a : ℚ)| ≤ drift (ys.length - 1) * (ys.map fun y => y.extended.magnitude).sum := by
  cases ys with
  | nil =>
    have hc : 0 = c := by
      rw [List.foldl_nil, extended_zero] at h
      exact Extended.finite.inj h
    refine ⟨0, rfl, ?_⟩
    simp [← hc]
  | cons y ys =>
    have hzero := dropZeroSign_zero
    have hfirst : (zero + y).extended = y.extended := by
      rw [add_eq_rounded hzero, extended_zero, zero_add, rounded_extended, extended_dropZeroSign]
    obtain ⟨a, ha, herror⟩ := foldl_add_error (dropZeroSign_add hzero y) h
    rw [hfirst] at ha herror
    exact ⟨a, ha, herror⟩

/-- Finite sums of the same numbers in two orders are off to both sides of the exact sum at worst. -/
theorem sum_error_perm {ys zs : List Binary64} (hperm : ys.Perm zs) {c d : Int}
    (hc : (ys.foldl (· + ·) zero).extended = .finite c)
    (hd : (zs.foldl (· + ·) zero).extended = .finite d) :
    |(c - d : ℚ)| ≤
      2 * drift (ys.length - 1) * (ys.map fun y => y.extended.magnitude).sum := by
  obtain ⟨a, ha, hca⟩ := sum_error hc
  obtain ⟨b, hb, hdb⟩ := sum_error hd
  have hab : Extended.finite a = .finite b := by
    rw [← ha, ← hb]
    exact (hperm.map extended).sum_eq
  obtain rfl : a = b := Extended.finite.inj hab
  rw [← hperm.length_eq, ← (hperm.map fun y => y.extended.magnitude).sum_eq] at hdb
  have htriangle : |(c - d : ℚ)| ≤ |(c - a : ℚ)| + |(d - a : ℚ)| := by
    rw [abs_sub_comm (d : ℚ)]
    exact abs_sub_le _ _ _
  linarith

end ScaleFactor.Binary64
