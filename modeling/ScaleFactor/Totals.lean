import ScaleFactor.Binary64.Arithmetic
import ScaleFactor.Rule.Basic
import ScaleFactor.Strategy
import ScaleFactor.Draw

/-!
# Running totals

While outcomes come in, everything that a strategy may ask for is kept up to date: the results in
order, their bounds and their sum, and how many matches came after the first one. `Totals.answer`
then folds the totals into one number. Without any outcome the answer is zero, whatever the
strategy.
-/

namespace ScaleFactor

/-- What is known about the outcomes that came in. -/
structure Totals where
  values : Array Binary64 := #[]
  least : Binary64 := .zero
  greatest : Binary64 := .zero
  sum : Binary64 := .zero
  anyMatched : Bool := false
  /-- The number of matches after the first one. -/
  overlaps : Nat := 0
  deriving DecidableEq, Repr

/-- More than one rule matched where the strategy forbids it: there is no answer. -/
structure Overlap where
  /-- The number of matches after the first one. -/
  extra : Nat
  deriving DecidableEq, Repr

def Overlap.message (o : Overlap) : String :=
  "scale rule panics: " ++ toString o.extra ++ " overlapping rule match(es)"

/-- The answer of a strategy with the words it took from the random source and those left. -/
structure Answer where
  result : Except Overlap Binary64
  draws : Nat
  words : List UInt64

namespace Totals

def empty : Totals := {}

def size (t : Totals) : Nat := t.values.size

def isEmpty (t : Totals) : Bool := t.values.isEmpty

/-- Takes one outcome in. The bounds start at the first result. -/
def push (t : Totals) (o : Outcome) : Totals where
  values := t.values.push o.value
  least := if t.isEmpty then o.value else t.least.lesser o.value
  greatest := if t.isEmpty then o.value else t.greatest.greater o.value
  sum := t.sum + o.value
  anyMatched := t.anyMatched || o.matched
  overlaps := if t.anyMatched && o.matched then t.overlaps + 1 else t.overlaps

/-- Takes outcomes in, in order. -/
def extend (t : Totals) (outcomes : List Outcome) : Totals := outcomes.foldl push t

/-- The totals of a list of outcomes. -/
def ofOutcomes (outcomes : List Outcome) : Totals := empty.extend outcomes

/-- An answer that takes no word from the random source. -/
def settled (words : List UInt64) (result : Except Overlap Binary64) : Answer := ⟨result, 0, words⟩

/-- Folds the totals into one number. -/
def answer (t : Totals) (strategy : Strategy) (words : List UInt64) : Answer :=
  if h : 0 < t.values.size then
    match strategy with
    | .last =>
      have : t.values.size - 1 < t.values.size := Nat.sub_lt h Nat.one_pos
      settled words (.ok t.values[t.values.size - 1])
    | .first => settled words (.ok t.values[0])
    | .random =>
      let draw := Draw.pick t.values.size h words
      have := draw.index.isLt
      ⟨.ok t.values[draw.index.val], draw.used, draw.rest⟩
    | .average => settled words (.ok (t.sum / .ofNat t.values.size))
    | .maximum => settled words (.ok t.greatest)
    | .minimum => settled words (.ok t.least)
    | .sum => settled words (.ok t.sum)
    | .overlaps => settled words (.ok (.ofNat t.overlaps))
    | .noOverlap =>
      settled words (if 0 < t.overlaps then .error ⟨t.overlaps⟩ else .ok .zero)
  else settled words (.ok .zero)

end Totals

end ScaleFactor
