import ScaleFactor.Proofs.Binary64.Drift
import ScaleFactor.Proofs.RuleSet.Partition
import ScaleFactor.Proofs.RuleSet.Rearranged

/-!
# Sums and averages of rule sets

The results of a pass are added up one after the other, and each addition rounds. With whole numbers
up to `2 ^ 53` there is nothing to round, so that a sum is what it is on paper: the two halves of a
pass add up to the whole, and the rules may stand in any order (`combine_whole_sums`).

With other numbers the order of the rules shows in the sum: a result that is added to a greater one
may leave no trace, and comes out in full if the greater one is taken away before
(`combine_sum_depends_on_order`). What is left is `combine_sum_in_any_order`. The sums are the same
if nothing is rounded in either order, and when at most two results are added, or when they have no
sum on paper; two finite sums are never farther from each other than rounding goes.
-/

namespace ScaleFactor

open Binary64

namespace Totals

variable (os : List Outcome) (words : List UInt64)

theorem answer_sum_eq : (summary os).answer .sum words = ⟨.ok (sumOf os), 0, words⟩ := by
  by_cases h : os = []
  · rw [h]
    rfl
  · exact answer_sum h words

/-- The mean of `n` results from their sum. No results have the mean zero. -/
def mean (n : Nat) (sum : Binary64) : Binary64 := if n = 0 then .zero else sum / .ofNat n

theorem answer_average_eq :
    (summary os).answer .average words = ⟨.ok (mean os.length (sumOf os)), 0, words⟩ := by
  by_cases h : os = []
  · rw [h]
    rfl
  · rw [answer_average h, mean, if_neg (mt List.length_eq_zero_iff.1 h)]

theorem mean_whole {n : Nat} {total : Int} (hn : n ≤ exactLimit) (htotal : total.natAbs ≤ exactLimit)
    (hdvd : (n : Int) ∣ total) : mean n (ofInt total) = ofInt (total / n) := by
  obtain ⟨q, rfl⟩ := hdvd
  rw [Int.mul_comm] at htotal ⊢
  rcases Nat.eq_zero_or_pos n with rfl | hpos
  · rw [mean, if_pos rfl, Nat.cast_zero, Int.ediv_zero, ofInt_zero]
  · rw [mean, if_neg hpos.ne', ofInt_mul_div_ofNat hpos hn htotal,
      Int.mul_ediv_cancel q (by exact_mod_cast hpos.ne')]

theorem sumOf_eq_foldl : sumOf os = (os.map (·.value)).foldl (· + ·) .zero := by
  rw [sumOf, List.foldl_map]

end Totals

namespace RuleSet

section Results

variable {memo : Memo} (hm : memo.Sound) (s : RuleSet) (x : Binary64) (only : Filter)
  (words : List UInt64)
include hm

theorem result_combine_sum : (s.combine x ⟨.sum, only⟩ memo words).answer.result =
    .ok (Totals.sumOf (s.kept x only)) := by
  rw [answer_combine hm, Totals.answer_sum_eq]

theorem result_combine_average : (s.combine x ⟨.average, only⟩ memo words).answer.result =
    .ok (Totals.mean (s.kept x only).length (Totals.sumOf (s.kept x only))) := by
  rw [answer_combine hm, Totals.answer_average_eq]

end Results

/-! ## Whole numbers -/

section Whole

variable {s : RuleSet} {x : Binary64} {whole : Binary64 → Int}

/-- Some of the results have a sum that is no greater than all their magnitudes. -/
theorem natAbs_total_le {os all : List Outcome} (h : os.Subperm all) :
    (os.map fun o => whole o.value).sum.natAbs ≤
      (os.map fun o => (whole o.value).natAbs).sum ∧
    (os.map fun o => (whole o.value).natAbs).sum ≤
      (all.map fun o => (whole o.value).natAbs).sum := by
  refine ⟨?_, ?_⟩
  · clear h
    induction os with
    | nil => exact Nat.le_refl 0
    | cons o os ih =>
      simp only [List.map_cons, List.sum_cons]
      omega
  · obtain ⟨part, hperm, hsub⟩ := h
    rw [← (hperm.map _).sum_eq]
    exact (hsub.map _).sum_le_sum fun _ _ => Nat.zero_le _

theorem sumOf_whole {all os : List Outcome}
    (hwhole : ∀ o ∈ all, o.value.extended = .finite (whole o.value * one))
    (hsum : (all.map fun o => (whole o.value).natAbs).sum ≤ 2 ^ 53) (h : os.Subperm all) :
    Totals.sumOf os = ofInt (os.map fun o => whole o.value).sum := by
  have hvalues : ∀ y ∈ os.map (·.value), y.extended = .finite (whole y * one) := by
    simp only [List.mem_map, forall_exists_index, and_imp, forall_apply_eq_imp_iff₂]
    exact fun o ho => hwhole o (h.subset ho)
  have hlimit : (0 : Int).natAbs + ((os.map (·.value)).map fun y => (whole y).natAbs).sum ≤
      exactLimit := by
    rw [List.map_map, Int.natAbs_zero, Nat.zero_add]
    exact ((natAbs_total_le h).2.trans hsum).trans (by decide)
  rw [Totals.sumOf_eq_foldl, ← ofInt_zero, foldl_add_whole hvalues hlimit, Int.zero_add, List.map_map]
  rfl

end Whole

/-- **Sums of whole numbers are exact.** Let all results of an unfiltered pass be whole numbers, not
more than `2 ^ 53` of them, and with magnitudes that add up to `2 ^ 53` at most. Then under each filter
the sum is that of the whole numbers, so that the matched and the unmatched ones add up to all of them,
rules in another order have the same sums, and an average that is a whole number is that number. The
memo may be in any state, each time in another one. -/
theorem combine_whole_sums {s : RuleSet} {x : Binary64} {whole : Binary64 → Int}
    (hwhole : ∀ o ∈ s.kept x .all, o.value.extended = .finite (whole o.value * one))
    (hcount : (s.kept x .all).length ≤ 2 ^ 53)
    (hsum : ((s.kept x .all).map fun o => (whole o.value).natAbs).sum ≤ 2 ^ 53)
    (capacity : Nat) (words : List UInt64) :
    let result (t : RuleSet) (only : Filter) (strategy : Strategy) (known : List Memo.Request) :=
      (t.combine x ⟨strategy, only⟩ ((Memo.empty capacity).after known) words).answer.result
    let total (only : Filter) := ((s.kept x only).map fun o => whole o.value).sum
    (∀ only known, result s only .sum known = .ok (.ofInt (total only)) ∧
        (ofInt (total only)).extended = .finite (total only * one)) ∧
      total .all = total .matched + total .unmatched ∧
      ofInt (total .all) = ofInt (total .matched) + ofInt (total .unmatched) ∧
      (∀ t : RuleSet, s.rules.Perm t.rules → ∀ only known others,
        result t only .sum known = result s only .sum others) ∧
      ∀ only known, ((s.kept x only).length : Int) ∣ total only →
        let quotient := total only / (s.kept x only).length
        result s only .average known = .ok (.ofInt quotient) ∧
          (ofInt quotient).extended = .finite (quotient * one) := by
  intro result total
  have hm (known : List Memo.Request) : ((Memo.empty capacity).after known).Sound :=
    Memo.sound_after_empty capacity known
  have hkept (only : Filter) : (s.kept x only).Subperm (s.kept x .all) := by
    rw [kept_all]
    exact List.filter_sublist.subperm
  have hlimit (only : Filter) : (total only).natAbs ≤ exactLimit :=
    ((natAbs_total_le (hkept only)).1.trans (natAbs_total_le (hkept only)).2).trans
      (hsum.trans (by decide))
  have hsumOf (only : Filter) : Totals.sumOf (s.kept x only) = ofInt (total only) :=
    sumOf_whole hwhole hsum (hkept only)
  have htotal : total .all = total .matched + total .unmatched := by
    show (List.map _ _).sum = (List.map _ _).sum + (List.map _ _).sum
    rw [← List.sum_append, ← List.map_append]
    exact ((s.kept_all_interleaves x).perm.map _).sum_eq
  refine ⟨?sum, htotal, ?halves, ?order, ?average⟩
  case sum =>
    intro only known
    exact ⟨by rw [← hsumOf]; exact result_combine_sum (hm known) s x only words,
      extended_ofInt (hlimit only)⟩
  case halves =>
    rw [add_eq_rounded (dropZeroSign_ofInt _), extended_ofInt (hlimit _), extended_ofInt (hlimit _),
      Extended.finite_add_finite, ← Int.add_mul, ← htotal, rounded_whole]
  case order =>
    intro t hperm only known others
    have hkeptPerm := kept_perm hperm x only
    have htotalPerm : ((t.kept x only).map fun o => whole o.value).sum = total only :=
      (hkeptPerm.symm.map _).sum_eq
    have hsumPerm : Totals.sumOf (t.kept x only) = ofInt (total only) := by
      rw [sumOf_whole hwhole hsum (hkeptPerm.symm.subperm.trans (hkept only)), htotalPerm]
    show (t.combine x _ _ words).answer.result = (s.combine x _ _ words).answer.result
    rw [result_combine_sum (hm known), result_combine_sum (hm others), hsumPerm, hsumOf]
  case average =>
    intro only known hdvd quotient
    have hlength : (s.kept x only).length ≤ exactLimit :=
      (hkept only).length_le.trans (hcount.trans (by decide))
    refine ⟨?_, extended_ofInt ((Int.natAbs_ediv_le_natAbs _ _).trans (hlimit only))⟩
    show (s.combine x _ _ words).answer.result = _
    rw [result_combine_average (hm known), hsumOf, Totals.mean_whole hlength (hlimit only) hdvd]

theorem combine_whole_sums_at_the_limit :
    let s : RuleSet := ⟨[">0?4503599627370497:0", "none", "<0?0:-1", ">0?4503599627370494:0"]⟩
    let t : RuleSet := ⟨[">0?4503599627370494:0", "<0?0:-1", "none", ">0?4503599627370497:0"]⟩
    let whole (y : Binary64) := y.truncate
    let result (u : RuleSet) (only : Filter) (strategy : Strategy) :=
      (u.combine (.ofNat 1) ⟨strategy, only⟩ (Memo.empty 2) []).answer.result
    (∀ o ∈ s.kept (.ofNat 1) .all, o.value.extended = .finite (whole o.value * one)) ∧
      (s.kept (.ofNat 1) .all).length ≤ 2 ^ 53 ∧
      ((s.kept (.ofNat 1) .all).map fun o => (whole o.value).natAbs).sum = 2 ^ 53 ∧
      s.rules.Perm t.rules ∧
      result s .matched .sum = .ok (.ofInt 9007199254740991) ∧
      result s .unmatched .sum = .ok (.ofInt (-1)) ∧
      result t .all .sum = .ok (.ofInt 9007199254740990) ∧
      (3 : Int) ∣ 9007199254740990 ∧
      result s .all .average = .ok (.ofInt 3002399751580330) := by
  intro s t whole result
  have hkept : s.kept (.ofNat 1) .all =
      [⟨.ofInt 4503599627370497, true⟩, ⟨.ofInt (-1), false⟩, ⟨.ofInt 4503599627370494, true⟩] := by
    decide +kernel
  have hwhole : ∀ o ∈ s.kept (.ofNat 1) .all, o.value.extended = .finite (whole o.value * one) := by
    rw [hkept]
    decide +kernel
  have hsum : ((s.kept (.ofNat 1) .all).map fun o => (whole o.value).natAbs).sum = 2 ^ 53 := by
    rw [hkept]
    decide +kernel
  have hcount : (s.kept (.ofNat 1) .all).length = 3 := by rw [hkept]; rfl
  have htotal : ((s.kept (.ofNat 1) .matched).map fun o => whole o.value).sum = 9007199254740991 ∧
      ((s.kept (.ofNat 1) .unmatched).map fun o => whole o.value).sum = -1 ∧
      ((s.kept (.ofNat 1) .all).map fun o => whole o.value).sum = 9007199254740990 := by
    decide +kernel
  have hperm : s.rules.Perm t.rules := (List.reverse_perm t.rules)
  obtain ⟨hsums, -, -, horder, haverage⟩ :=
    combine_whole_sums hwhole (hcount.le.trans (by decide)) hsum.le 2 []
  obtain ⟨hmatched, hunmatched, hall⟩ := htotal
  have hdvd : ((s.kept (.ofNat 1) .all).length : Int) ∣
      ((s.kept (.ofNat 1) .all).map fun o => whole o.value).sum := by
    rw [hall, hcount]
    decide
  have hsumMatched := (hsums .matched []).1
  have hsumUnmatched := (hsums .unmatched []).1
  have hsumAll := (hsums .all []).1
  have hmean := (haverage .all [] hdvd).1
  simp only [hmatched] at hsumMatched
  simp only [hunmatched] at hsumUnmatched
  simp only [hall] at hsumAll
  simp only [hall, hcount] at hmean
  exact ⟨hwhole, hcount.le.trans (by decide), hsum, hperm, hsumMatched, hsumUnmatched,
    (horder t hperm .all [] []).trans hsumAll, by decide, hmean⟩

-- one more than the magnitudes may add up to, and the sum is off by one
example : ((⟨[">0?9007199254740992:0", ">0?1:0"]⟩ : RuleSet).combine (.ofNat 1) ⟨.sum, .all⟩
    (Memo.empty 1) []).answer.result = .ok (.ofInt 9007199254740992) := by decide +kernel

/-! ## The order of the rules -/

/-- **The order of the rules shows in sums and averages.** One is lost when it is added to `10 ^ 16`
first, and is all that is left when it comes after `-10 ^ 16`. So it is not true that rules in another
order have the same sum or the same average, as numbers. -/
theorem combine_sum_depends_on_order :
    let s : RuleSet := ⟨[">0?1:0", ">0?1e16:0", ">0?-1e16:0"]⟩
    let t : RuleSet := ⟨[">0?1e16:0", ">0?-1e16:0", ">0?1:0"]⟩
    let result (u : RuleSet) (x : Binary64) (only : Filter) (strategy : Strategy) :=
      (u.combine x ⟨strategy, only⟩ (Memo.empty 1) []).answer.result
    s.rules.Perm t.rules ∧
      result s (.ofNat 1) .all .sum = .ok .zero ∧
      result t (.ofNat 1) .all .sum = .ok (.ofNat 1) ∧
      result s (.ofNat 1) .all .average = .ok .zero ∧
      result t (.ofNat 1) .all .average = .ok (.ofNat 1 / .ofNat 3) ∧
      ¬ ∀ s t : RuleSet, s.rules.Perm t.rules → ∀ (x : Binary64) (only : Filter),
        ∀ strategy ∈ [Strategy.sum, .average], ∃ a b, result s x only strategy = .ok a ∧
          result t x only strategy = .ok b ∧ a.dropZeroSign = b.dropZeroSign := by
  intro s t result
  have hperm : s.rules.Perm t.rules := by decide +kernel
  have hs : result s (.ofNat 1) .all .sum = .ok .zero := by decide +kernel
  have ht : result t (.ofNat 1) .all .sum = .ok (.ofNat 1) := by decide +kernel
  refine ⟨hperm, hs, ht, by decide +kernel, by decide +kernel, ?_⟩
  intro h
  obtain ⟨a, b, ha, hb, hab⟩ := h s t hperm (.ofNat 1) .all .sum (by decide)
  obtain rfl := Except.ok.inj (hs.symm.trans ha)
  obtain rfl := Except.ok.inj (ht.symm.trans hb)
  exact absurd hab (by decide +kernel)

/-- **Rules in another order have the same sum and average up to rounding.** The results that are added
are the same in both orders. If at most two results are added, or a NaN is among them, or both
infinities, or if no addition is rounded in either order, then the sums are the same number. And two
finite sums differ by twice the `drift` of the additions after the first one at most, as a part of all
the magnitudes. The average is in both orders the sum over the number of results. The memo may be in
any state, each time in another one. -/
theorem combine_sum_in_any_order {s t : RuleSet} (hperm : s.rules.Perm t.rules) (x : Binary64)
    (only : Filter) :
    let values (u : RuleSet) := (u.kept x only).map (·.value)
    let n := (s.kept x only).length
    (values s).Perm (values t) ∧
    ∃ a b : Binary64,
      (∀ (capacity : Nat) (known : List Memo.Request) (words : List UInt64),
        let result (u : RuleSet) (strategy : Strategy) :=
          (u.combine x ⟨strategy, only⟩ ((Memo.empty capacity).after known) words).answer.result
        result s .sum = .ok a ∧ result t .sum = .ok b ∧
          result s .average = .ok (Totals.mean n a) ∧ result t .average = .ok (Totals.mean n b)) ∧
      (n ≤ 2 ∨ .nan ∈ values s ∨ .infinite false ∈ values s ∧ .infinite true ∈ values s ∨
        Unrounded .zero (values s) ∧ Unrounded .zero (values t) → a = b) ∧
      ∀ c d, a.extended = .finite c → b.extended = .finite d →
        |(c - d : ℚ)| ≤
          2 * drift (n - 1) * ((values s).map fun y => y.extended.magnitude).sum := by
  intro values n
  have hvalues : (values s).Perm (values t) := (kept_perm hperm x only).map _
  have hcount : (t.kept x only).length = n := (kept_perm hperm x only).symm.length_eq
  have hlength : (values s).length = n := List.length_map ..
  refine ⟨hvalues, Totals.sumOf (s.kept x only), Totals.sumOf (t.kept x only), ?_, ?_, ?_⟩
  · intro capacity known words result
    have hm : ((Memo.empty capacity).after known).Sound := Memo.sound_after_empty capacity known
    refine ⟨result_combine_sum hm s x only words, result_combine_sum hm t x only words,
      result_combine_average hm s x only words, ?_⟩
    rw [← hcount]
    exact result_combine_average hm t x only words
  · rw [Totals.sumOf_eq_foldl, Totals.sumOf_eq_foldl, ← hlength]
    exact foldl_add_perm hvalues
  · rw [Totals.sumOf_eq_foldl, Totals.sumOf_eq_foldl, ← hlength]
    intro c d hc hd
    exact sum_error_perm hvalues hc hd

theorem combine_sum_in_any_order_of_quarters :
    let s : RuleSet := ⟨["=1?1e15:0", ">0?0.5:0", "?", "<0?0:-0.25"]⟩
    let t : RuleSet := ⟨["<0?0:-0.25", "?", ">0?0.5:0", "=1?1e15:0"]⟩
    let values (u : RuleSet) := (u.kept (.ofNat 1) .all).map (·.value)
    let result (u : RuleSet) (strategy : Strategy) :=
      (u.combine (.ofNat 1) ⟨strategy, .all⟩ (Memo.empty 2) []).answer.result
    s.rules.Perm t.rules ∧ (values s).length = 3 ∧
      Unrounded .zero (values s) ∧ Unrounded .zero (values t) ∧
      result s .sum = result t .sum ∧ result s .average = result t .average := by
  intro s t values result
  have hperm : s.rules.Perm t.rules := List.reverse_perm t.rules
  have hlength : (values s).length = 3 := by decide +kernel
  have hs : Unrounded .zero (values s) := by decide +kernel
  have ht : Unrounded .zero (values t) := by decide +kernel
  obtain ⟨-, a, b, hresults, hsame, -⟩ := combine_sum_in_any_order hperm (.ofNat 1) .all
  obtain ⟨hsumS, hsumT, haverageS, haverageT⟩ := hresults 2 [] []
  obtain rfl := hsame (.inr (.inr (.inr ⟨hs, ht⟩)))
  exact ⟨hperm, hlength, hs, ht, hsumS.trans hsumT.symm, haverageS.trans haverageT.symm⟩

end RuleSet

end ScaleFactor
