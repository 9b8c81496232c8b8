import ScaleFactor.Rule.Fault

/-!
# Notices

What the library reports beside its answers, in the order in which it happens.
-/

namespace ScaleFactor

/-- Something worth reporting. -/
inductive Notice where
  /-- A rule of a set could not be read and takes no part. -/
  | skipped (rule : String) (cause : Rule.Fault)
  /-- A rule was read and is remembered from now on. -/
  | compiled (rule : String)
  /-- The memo was full, and its `count` rules were forgotten. -/
  | emptied (count : Nat)
  deriving DecidableEq, Repr

namespace Notice

/-- Skipped rules are warnings; the rest is for those who look into the working of the memo. -/
inductive Level where
  | warning
  | debug
  deriving DecidableEq, Repr

def level : Notice → Level
  | skipped .. => .warning
  | compiled _ | emptied _ => .debug

def message : Notice → String
  | skipped _ cause => "error in scale rule lib: " ++ cause.message
  | compiled _ => "compiled scale rule"
  | emptied _ => "scale rule cache full, clearing"

def isWarning (n : Notice) : Bool := n.level = .warning

end Notice

end ScaleFactor
