/-!
# Results

Readers answer with a value or with what is wrong, and run one after the other until one of them
fails. Here is what a whole sequence of them says about its parts.
-/

namespace ScaleFactor

/-- A reader succeeds after another one exactly when both succeed. -/
theorem bind_eq_ok_iff {ε α β : Type} {x : Except ε α} {f : α → Except ε β} {b : β} :
    (x >>= f) = .ok b ↔ ∃ a, x = .ok a ∧ f a = .ok b := by
  cases x <;> simp [bind, Except.bind]

theorem pure_eq_ok_iff {ε α : Type} {a b : α} : (pure a : Except ε α) = .ok b ↔ a = b := by
  simp [pure, Except.pure]

end ScaleFactor
