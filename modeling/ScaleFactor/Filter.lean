/-!
# Filters

Which outcomes take part in the answer: all of them, or only those of rules that matched, or only
those of rules that did not.
-/

namespace ScaleFactor

inductive Filter where
  | all
  | matched
  | unmatched
  deriving DecidableEq, Repr, Inhabited

namespace Filter

/-- Whether an outcome with the given matched flag is kept. -/
def keeps : Filter → Bool → Bool
  | all, _ => true
  | matched, m => m
  | unmatched, m => !m

def name : Filter → String
  | all => "all"
  | matched => "matched"
  | unmatched => "unmatched"

/-- All filters, the one that keeps everything first. -/
def every : List Filter := [all, matched, unmatched]

def ofName? (s : String) : Option Filter := every.find? (·.name = s)

/-- Only matched outcomes, or only unmatched ones. -/
def ofFlag (onlyMatched : Bool) : Filter := if onlyMatched then matched else unmatched

/-- As `ofFlag`; without a flag everything is kept. -/
def ofFlag? : Option Bool → Filter
  | none => all
  | some onlyMatched => ofFlag onlyMatched

theorem mem_every (f : Filter) : f ∈ every := by cases f <;> decide

theorem ofName?_name (f : Filter) : ofName? f.name = some f := by cases f <;> rfl

/-- The two selective filters divide the outcomes between them. -/
theorem keeps_unmatched (m : Bool) : unmatched.keeps m = !matched.keeps m := rfl

end Filter

end ScaleFactor
