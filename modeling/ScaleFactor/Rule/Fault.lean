import ScaleFactor.Rule.Literal
import ScaleFactor.Text.Quoted

/-!
# Faults of rule texts
-/

namespace ScaleFactor

/-- Why a text is no rule. -/
inductive Rule.Fault where
  /-- The text does not fall into an operator, a condition and two branches. -/
  | malformed (rule : String)
  /-- The condition or a branch should be a number and is none. -/
  | number (literal : String) (reason : Literal.Fault)
  /-- The condition should be two numbers with a dash between them and is not. -/
  | range (condition : String)
  deriving DecidableEq, Repr

def Rule.Fault.message : Rule.Fault → String
  | malformed rule => "expression not parsable (" ++ rule ++ ")"
  | number literal reason => "invalid number " ++ Text.quoted literal ++ ": " ++ reason.message
  | range condition => "between conditions error (" ++ condition ++ ")"

end ScaleFactor
