import ScaleFactor.Strategy
import ScaleFactor.Filter

/-!
# Settings

What a combination of rules needs beside the rules: a strategy and a filter.
-/

namespace ScaleFactor

/-- A strategy and a filter; by default the last result, and everything kept. -/
structure Settings where
  strategy : Strategy := .last
  only : Filter := .all
  deriving DecidableEq, Repr, Inhabited

namespace Settings

/-- The strategy with everything kept. -/
def ofStrategy (s : Strategy) : Settings := { strategy := s }

def withStrategy (c : Settings) (s : Strategy) : Settings := { c with strategy := s }

def withOnly (c : Settings) (f : Filter) : Settings := { c with only := f }

end Settings

end ScaleFactor
