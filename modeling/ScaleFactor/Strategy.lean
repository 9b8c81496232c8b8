/-!
# Strategies

The ways in which the kept results of many rules become one number. Every strategy has a name and
a numeric code.
-/

namespace ScaleFactor

/-- How the kept results become one number. -/
inductive Strategy where
  /-- The last kept result. -/
  | last
  /-- The first kept result. -/
  | first
  /-- One of the kept results, all equally likely. -/
  | random
  /-- The sum divided by the count. -/
  | average
  | maximum
  | minimum
  | sum
  /-- The number of matches after the first one. -/
  | overlaps
  /-- No answer at all if there is a match after the first one. -/
  | noOverlap
  deriving DecidableEq, Repr, Inhabited

namespace Strategy

/-- All strategies in the order of their codes. -/
def all : List Strategy :=
  [last, first, random, average, maximum, minimum, sum, overlaps, noOverlap]

def name : Strategy → String
  | last => "last-one"
  | first => "first-one"
  | random => "random"
  | average => "average"
  | maximum => "maximum"
  | minimum => "minimum"
  | sum => "sum"
  | overlaps => "intersections"
  | noOverlap => "intersection-fatal"

def code : Strategy → Nat
  | last => 1
  | first => 2
  | random => 3
  | average => 4
  | maximum => 5
  | minimum => 6
  | sum => 7
  | overlaps => 8
  | noOverlap => 9

/-- A name or a code that no strategy has. -/
structure Unknown where
  asked : String
  deriving DecidableEq, Repr

def Unknown.message (u : Unknown) : String := "unknown combine strategy: " ++ u.asked

def ofName (s : String) : Except Unknown Strategy :=
  match all.find? (·.name = s) with
  | some strategy => .ok strategy
  | none => .error ⟨s⟩

def ofCode (n : Nat) : Except Unknown Strategy :=
  match all.find? (·.code = n) with
  | some strategy => .ok strategy
  | none => .error ⟨toString n⟩

theorem mem_all (s : Strategy) : s ∈ all := by cases s <;> decide

theorem ofName_name (s : Strategy) : ofName s.name = .ok s := by cases s <;> rfl

theorem ofCode_code (s : Strategy) : ofCode s.code = .ok s := by cases s <;> rfl

end Strategy

end ScaleFactor
