import ScaleFactor.Binary64.Basic

/-!
# Rules

A rule compares a value with its condition and picks one of two numbers. `Rule.outcome` is the
whole meaning of a rule: the picked number, and whether the condition held. A rule whose operator
is unknown, or whose condition has the wrong shape for its operator, picks neither number.
-/

namespace ScaleFactor

/-- What the value is compared by. -/
inductive Operator where
  | equal
  | greater
  | less
  | notEqual
  | within
  | unknown (mark : Char)
  deriving DecidableEq, Repr

/-- The operator that a character stands for. -/
def Operator.ofChar : Char → Operator
  | '=' => equal
  | '>' => greater
  | '<' => less
  | '!' => notEqual
  | '@' => within
  | c => unknown c

/-- What the value is compared with: one number, or a range that contains both its ends. -/
inductive Condition where
  | value (x : Binary64)
  | range (low high : Binary64)
  deriving DecidableEq, Repr

/-- A rule in structured form. -/
structure Rule where
  operator : Operator
  condition : Condition
  whenTrue : Binary64
  whenFalse : Binary64
  deriving DecidableEq, Repr

/-- What a rule makes of one value. -/
structure Outcome where
  value : Binary64
  matched : Bool
  deriving DecidableEq, Repr

/-- The outcome of a rule that picks neither of its numbers. -/
def Outcome.none : Outcome := ⟨.zero, false⟩

/-- Whether a value meets the condition, where the operator and the condition fit together. -/
def Operator.holds? (op : Operator) (x : Binary64) : Condition → Option Bool
  | .value c =>
    match op with
    | .less => some (x.lt c)
    | .greater => some (c.lt x)
    | .equal => some (x.same c)
    | .notEqual => some (!x.same c)
    | .within | .unknown _ => Option.none
  | .range low high =>
    match op with
    | .within => some (low.le x && x.le high)
    | _ => Option.none

namespace Rule

/-- Applies the rule to a value. -/
def outcome (r : Rule) (x : Binary64) : Outcome :=
  match r.operator.holds? x r.condition with
  | some true => ⟨r.whenTrue, true⟩
  | some false => ⟨r.whenFalse, false⟩
  | none => .none

/-- A condition that fits the operator picks one of the numbers. -/
theorem outcome_of_holds? {r : Rule} {x : Binary64} {holds : Bool}
    (h : r.operator.holds? x r.condition = some holds) :
    r.outcome x = ⟨if holds then r.whenTrue else r.whenFalse, holds⟩ := by
  unfold outcome
  rw [h]
  cases holds <;> rfl

end Rule

end ScaleFactor
