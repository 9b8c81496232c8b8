import ScaleFactor.RuleSet

/-!
# Scalers

A rule set together with the settings under which it is combined: set up once, field by field,
and then asked again and again, for floating-point numbers or for 64-bit whole numbers.
-/

namespace ScaleFactor

structure Scaler where
  rules : RuleSet := {}
  settings : Settings := {}
  deriving DecidableEq, Repr

/-- The answer to a whole number, with the memo and the words afterwards and the notices on the
way. -/
structure Scaler.Whole where
  result : Except Overlap Int64
  memo : Memo
  words : List UInt64
  notices : List Notice

namespace Scaler

/-- A scaler for the rules, with the default settings. -/
def ofRules (rules : RuleSet) : Scaler := { rules := rules }

def withRules (s : Scaler) (rules : RuleSet) : Scaler := { s with rules := rules }

def withSettings (s : Scaler) (settings : Settings) : Scaler := { s with settings := settings }

def withStrategy (s : Scaler) (strategy : Strategy) : Scaler :=
  { s with settings := s.settings.withStrategy strategy }

def withOnly (s : Scaler) (only : Filter) : Scaler :=
  { s with settings := s.settings.withOnly only }

/-- The scale factor for a floating-point number. -/
def float (s : Scaler) (x : Binary64) (memo : Memo) (words : List UInt64) : Combined :=
  s.rules.combine x s.settings memo words

/-- The scale factor for a whole number, cut down to a whole number itself. -/
def whole (s : Scaler) (n : Int64) (memo : Memo) (words : List UInt64) : Whole :=
  let combined := s.float (.ofInt n.toInt) memo words
  ⟨combined.answer.result.map fun x => .ofInt x.truncate, combined.memo, combined.answer.words,
    combined.notices⟩

end Scaler

end ScaleFactor
