import ScaleFactor.Proofs.Binary64.Order
import ScaleFactor.Proofs.Totals.History

/-!
# Bounds of outcomes

The greatest and the least of the results are kept up to date from the first outcome on, so which
numbers are compared with which hangs on the order of the outcomes. The rank of a bound does not: it
is the greatest or least of all ranks there are (`rank?_boundOf`), taken without a start value, since
a NaN, which has no rank, gives way to everything. So bounds of lists that are put together or
rearranged are bounds of the bounds (`boundRank_append`, `boundRank_perm`).

The answers are the bounds themselves. Their ranks tell everything about them but the sign of a zero.
-/

namespace ScaleFactor

namespace Totals

/-! ## Ranks of bounds -/

/-- The rank that `op` leaves of the ranks of the results. -/
def boundRank (op : Int → Int → Int) (os : List Outcome) : Option Int :=
  (os.map (·.value.rank?)).foldl (Option.merge op) none

section Rank

variable {choose : Binary64 → Binary64 → Binary64} {op : Int → Int → Int}
  {before : Binary64 → Binary64 → Bool}

theorem rank?_foldl (hc : Binary64.Choice choose op before) (os : List Outcome) (x : Binary64) :
    (os.foldl (fun bound o => choose bound o.value) x).rank? =
      (os.map (·.value.rank?)).foldl (Option.merge op) x.rank? := by
  induction os generalizing x with
  | nil => rfl
  | cons o os ih => rw [List.foldl_cons, ih, hc.rank?_choose, List.map_cons, List.foldl_cons]

/-- A bound starts at the first result; its rank might as well start at nothing. -/
theorem rank?_boundOf (hc : Binary64.Choice choose op before) {os : List Outcome} (hos : os ≠ []) :
    (boundOf choose os).rank? = boundRank op os := by
  cases os with
  | nil => exact absurd rfl hos
  | cons o os =>
    rw [boundOf, rank?_foldl hc, boundRank, List.map_cons, List.foldl_cons,
      Option.merge_none_left]

/-- A bound might as well start at a NaN. -/
theorem boundOf_eq_foldl (hc : Binary64.Choice choose op before) {os : List Outcome}
    (hos : os ≠ []) : boundOf choose os = os.foldl (fun bound o => choose bound o.value) .nan := by
  cases os with
  | nil => exact absurd rfl hos
  | cons o os => rw [boundOf, List.foldl_cons, hc.nan_choose]

theorem boundRank_append [Std.Associative op] (os more : List Outcome) :
    boundRank op (os ++ more) = (boundRank op os).merge op (boundRank op more) := by
  simp only [boundRank, List.map_append, List.foldl_append]
  generalize (os.map (·.value.rank?)).foldl (Option.merge op) none = start
  -- the fold of the second part starts at the bound of the first one, which can be pulled out
  have hpull : (more.map (·.value.rank?)).foldl (Option.merge op) (start.merge op none) =
      start.merge op ((more.map (·.value.rank?)).foldl (Option.merge op) none) := List.foldl_assoc
  rwa [Option.merge_none_right] at hpull

theorem boundRank_perm [Std.Associative op] [Std.Commutative op] {os more : List Outcome}
    (h : os.Perm more) : boundRank op os = boundRank op more :=
  (h.map _).foldl_op_eq

end Rank

/-! ## Answers -/

section Answers

variable {os : List Outcome} (h : os ≠ []) (words : List UInt64)
include h

theorem answer_maximum :
    (summary os).answer .maximum words = ⟨.ok (boundOf .greater os), 0, words⟩ := by
  rw [answer, dif_pos (size_values_pos h)]
  rfl

theorem answer_minimum :
    (summary os).answer .minimum words = ⟨.ok (boundOf .lesser os), 0, words⟩ := by
  rw [answer, dif_pos (size_values_pos h)]
  rfl

end Answers

end Totals

end ScaleFactor
