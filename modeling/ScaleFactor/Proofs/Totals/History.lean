import ScaleFactor.Totals

/-!
# Totals and their history

Totals change with every outcome that comes in, six fields at a time. `Totals.summary` says what
each of them ought to be, from the whole list of outcomes at once; taking one more outcome in leads
from the summary of a list to the summary of the longer one (`push_summary`). So totals that were
built in any number of steps are the summary of everything that came in since they were last started
anew, and how that was cut into steps does not show.

There are two kinds of first times in it, and they need not come together: the first outcome starts
the bounds, the first match starts the count of overlaps. In the summary both are gone.
-/

namespace ScaleFactor.Totals

/-! ## The summary of a list -/

/-- The sum of the values, taken from left to right. -/
def sumOf (os : List Outcome) : Binary64 := os.foldl (fun sum o => sum + o.value) .zero

/-- The number of matches. -/
def matchCount (os : List Outcome) : Nat := os.countP (·.matched)

/-- What is left of the values when `choose` picks one of two at a time, from left to right. -/
def boundOf (choose : Binary64 → Binary64 → Binary64) : List Outcome → Binary64
  | [] => .zero
  | o :: os => os.foldl (fun bound o => choose bound o.value) o.value

/-- The totals of a list of outcomes, each field from the list as a whole. -/
def summary (os : List Outcome) : Totals where
  values := (os.map (·.value)).toArray
  least := boundOf .lesser os
  greatest := boundOf .greater os
  sum := sumOf os
  anyMatched := os.any (·.matched)
  overlaps := matchCount os - 1

theorem boundOf_append_singleton (choose : Binary64 → Binary64 → Binary64) (os : List Outcome)
    (o : Outcome) : boundOf choose (os ++ [o]) =
      if os.isEmpty then o.value else choose (boundOf choose os) o.value := by
  cases os with
  | nil => rfl
  | cons first rest => simp [boundOf, List.foldl_append]

theorem matchCount_append_singleton (os : List Outcome) (o : Outcome) :
    matchCount (os ++ [o]) = matchCount os + if o.matched then 1 else 0 := by
  simp [matchCount, List.countP_append, List.countP_cons]

theorem any_matched_iff_matchCount_pos (os : List Outcome) :
    os.any (·.matched) = true ↔ 0 < matchCount os := by
  rw [matchCount, List.countP_pos_iff, List.any_eq_true]

@[simp] theorem isEmpty_summary (os : List Outcome) : (summary os).isEmpty = os.isEmpty := by
  simp [summary, isEmpty]

@[simp] theorem size_summary (os : List Outcome) : (summary os).size = os.length := by
  simp [summary, size]

/-- A match counts unless it is the first one, and the first one is a match that no match went
before. -/
theorem overlaps_push_summary (os : List Outcome) (o : Outcome) :
    ((summary os).push o).overlaps = matchCount (os ++ [o]) - 1 := by
  show (if os.any (·.matched) && o.matched then matchCount os - 1 + 1 else matchCount os - 1) = _
  have hany := any_matched_iff_matchCount_pos os
  rw [matchCount_append_singleton]
  cases o.matched with
  | false => simp
  | true =>
    by_cases hpos : 0 < matchCount os
    · -- one of them is the first, before and after
      have hmatched : os.any (·.matched) = true := hany.2 hpos
      rw [hmatched]
      simp only [Bool.and_self, if_true]
      omega
    · -- the first match, which overlaps with nothing
      have hmatched : os.any (·.matched) = false := by
        rw [← Bool.not_eq_true, hany]
        exact hpos
      rw [hmatched]
      simp only [Bool.false_and, Bool.false_eq_true, if_false, if_true]
      omega

/-- One more outcome makes the summary of one more outcome. -/
theorem push_summary (os : List Outcome) (o : Outcome) :
    (summary os).push o = summary (os ++ [o]) := by
  -- of the six fields this is the only one that is not a fold of its own
  have hoverlaps := overlaps_push_summary os o
  simp only [push, isEmpty_summary] at hoverlaps ⊢
  rw [hoverlaps]
  simp [summary, boundOf_append_singleton, sumOf]

theorem extend_summary (os more : List Outcome) :
    (summary os).extend more = summary (os ++ more) := by
  induction more generalizing os with
  | nil =>
    rw [List.append_nil]
    rfl
  | cons o more ih =>
    show ((summary os).push o).extend more = _
    rw [push_summary, ih, List.append_assoc]
    rfl

theorem ofOutcomes_eq_summary (os : List Outcome) : ofOutcomes os = summary os :=
  extend_summary [] os

/-! ## Answers of a summary -/

theorem answer_of_isEmpty (strategy : Strategy) (words : List UInt64) :
    (summary []).answer strategy words = ⟨.ok .zero, 0, words⟩ := rfl

section Answers

variable {os : List Outcome} (h : os ≠ []) (words : List UInt64)
include h

theorem size_values_pos : 0 < (summary os).values.size := by
  have := List.length_pos_iff.2 h
  simpa [summary] using this

theorem answer_first :
    (summary os).answer .first words = ⟨.ok (os.head h).value, 0, words⟩ := by
  rw [answer, dif_pos (size_values_pos h)]
  simp [settled, summary, List.head_eq_getElem]

theorem answer_last :
    (summary os).answer .last words = ⟨.ok (os.getLast h).value, 0, words⟩ := by
  rw [answer, dif_pos (size_values_pos h)]
  simp [settled, summary, List.getLast_eq_getElem]

theorem answer_sum : (summary os).answer .sum words = ⟨.ok (sumOf os), 0, words⟩ := by
  rw [answer, dif_pos (size_values_pos h)]
  rfl

theorem answer_average :
    (summary os).answer .average words = ⟨.ok (sumOf os / .ofNat os.length), 0, words⟩ := by
  rw [answer, dif_pos (size_values_pos h)]
  simp [settled, summary]

theorem answer_overlaps :
    (summary os).answer .overlaps words = ⟨.ok (.ofNat (matchCount os - 1)), 0, words⟩ := by
  rw [answer, dif_pos (size_values_pos h)]
  rfl

/-- There is no answer exactly when there are two matches. -/
theorem answer_noOverlap :
    (summary os).answer .noOverlap words =
      ⟨if 2 ≤ matchCount os then .error ⟨matchCount os - 1⟩ else .ok .zero, 0, words⟩ := by
  rw [answer, dif_pos (size_values_pos h)]
  have hiff : 0 < matchCount os - 1 ↔ 2 ≤ matchCount os := by omega
  simp only [settled, summary, hiff]

end Answers

/-! ## Histories -/

/-- A way of taking outcomes in. -/
inductive Step where
  | push (o : Outcome)
  | extend (os : List Outcome)
  /-- Starts anew, with outcomes of its own. -/
  | collect (os : List Outcome)
  deriving DecidableEq, Repr

/-- The totals after a step. -/
def take (t : Totals) : Step → Totals
  | .push o => t.push o
  | .extend os => t.extend os
  | .collect os => ofOutcomes os

/-- The totals after steps, from the beginning. -/
def run (steps : List Step) : Totals := steps.foldl take empty

/-- The outcomes that count after a step, if those before it are given. -/
def Step.absorb (os : List Outcome) : Step → List Outcome
  | .push o => os ++ [o]
  | .extend more => os ++ more
  | .collect fresh => fresh

/-- The outcomes that came in since the totals were last started anew. -/
def history (steps : List Step) : List Outcome := steps.foldl Step.absorb []

theorem take_summary (os : List Outcome) (step : Step) :
    (summary os).take step = summary (step.absorb os) := by
  cases step with
  | push o => exact push_summary os o
  | extend more => exact extend_summary os more
  | collect fresh => exact ofOutcomes_eq_summary fresh

theorem foldl_take_summary (os : List Outcome) (steps : List Step) :
    steps.foldl take (summary os) = summary (steps.foldl Step.absorb os) := by
  induction steps generalizing os with
  | nil => rfl
  | cons step steps ih => rw [List.foldl_cons, List.foldl_cons, take_summary, ih]

theorem run_eq_summary (steps : List Step) : run steps = summary (history steps) :=
  foldl_take_summary [] steps

example (a b c : Outcome) : history [.push a, .collect [b], .extend [c]] = [b, c] := rfl

/-- **Totals always agree with their history.** After any steps they are the totals of the outcomes
since the last new start, collected at once: so many results, so many of them matches after the
first one, and answers that can be told from the list alone. Without outcomes every strategy
answers positive zero and draws nothing. -/
theorem run_agrees_with_history (steps : List Step) (words : List UInt64) :
    let t := run steps
    let os := history steps
    t = ofOutcomes os ∧
      t.size = os.length ∧
      (t.isEmpty = true ↔ os = []) ∧
      t.overlaps = matchCount os - 1 ∧
      (0 < t.overlaps ↔ 2 ≤ matchCount os) ∧
      (os = [] → ∀ strategy, t.answer strategy words = ⟨.ok .zero, 0, words⟩) ∧
      ∀ h : os ≠ [],
        t.answer .first words = ⟨.ok (os.head h).value, 0, words⟩ ∧
          t.answer .last words = ⟨.ok (os.getLast h).value, 0, words⟩ ∧
          t.answer .sum words = ⟨.ok (sumOf os), 0, words⟩ ∧
          t.answer .average words = ⟨.ok (sumOf os / .ofNat os.length), 0, words⟩ ∧
          t.answer .overlaps words = ⟨.ok (.ofNat (matchCount os - 1)), 0, words⟩ ∧
          t.answer .noOverlap words =
            ⟨if 2 ≤ matchCount os then .error ⟨matchCount os - 1⟩ else .ok .zero, 0, words⟩ := by
  intro t os
  have ht : t = summary os := run_eq_summary steps
  clear_value t os
  subst ht
  refine ⟨(ofOutcomes_eq_summary os).symm, size_summary os, ?_, rfl, ?_, ?_, ?_⟩
  · rw [isEmpty_summary, List.isEmpty_iff]
  · show 0 < matchCount os - 1 ↔ 2 ≤ matchCount os
    omega
  · rintro rfl strategy
    exact answer_of_isEmpty strategy words
  · intro h
    exact ⟨answer_first h words, answer_last h words, answer_sum h words, answer_average h words,
      answer_overlaps h words, answer_noOverlap h words⟩

end ScaleFactor.Totals
