import ScaleFactor.Numeral

/-!
# Number literals of rules

A literal is the text of a number as `Binary64.ofText?` reads it, except that a numeral may not
be so large that it rounds to infinity: infinity has to be named.
-/

namespace ScaleFactor.Literal

/-- Why a text is no literal. -/
inductive Fault where
  | empty
  | invalid
  | outOfRange
  deriving DecidableEq, Repr

def Fault.message : Fault → String
  | empty => "cannot parse float from empty string"
  | invalid => "invalid float literal"
  | outOfRange => "value out of range"

/-- The text spells infinity out, after any signs. -/
def namesInfinity (cs : List Char) : Bool :=
  Binary64.isInfinityWord (cs.dropWhile fun c => c == '+' || c == '-')

/-- Reads a literal, the whole text of it. -/
def read (cs : List Char) : Except Fault Binary64 :=
  if cs = [] then .error .empty
  else match Binary64.ofText? cs with
  | none => .error .invalid
  | some x => if x.isInfinite && !namesInfinity cs then .error .outOfRange else .ok x

end ScaleFactor.Literal
