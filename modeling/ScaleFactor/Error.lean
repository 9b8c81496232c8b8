import ScaleFactor.Json.Fault
import ScaleFactor.Rule.Fault
import ScaleFactor.Strategy

/-!
# Errors

Everything that can be wrong with what is given to a scaler.
-/

namespace ScaleFactor

inductive Error where
  | rule (fault : Rule.Fault)
  | strategy (asked : Strategy.Unknown)
  | json (error : Json.Error)
  deriving DecidableEq, Repr

def Error.message : Error → String
  | rule fault => fault.message
  | strategy asked => asked.message
  | json error => "rules are not a JSON array of strings: " ++ error.message

end ScaleFactor
