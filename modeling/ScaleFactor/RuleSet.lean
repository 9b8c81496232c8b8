import ScaleFactor.Memo
import ScaleFactor.Settings
import ScaleFactor.Totals

/-!
# Rule sets

An ordered list of rule texts, evaluated together on one value. A pass goes through the rules in
order: a rule that cannot be read is reported and skipped, and of the other outcomes those that
the filter keeps enter the totals. Rules are fetched through a memo, which passes from rule to
rule and on to the next pass.
-/

namespace ScaleFactor

/-- Rule texts in order. They may be no rules; that shows when the set is evaluated. -/
structure RuleSet where
  rules : List String := []
  deriving DecidableEq, Repr

/-- How far the evaluation of a rule set has come. -/
structure Pass where
  totals : Totals
  memo : Memo
  notices : List Notice

namespace Pass

/-- Evaluates one more rule. -/
def step (x : Binary64) (only : Filter) (p : Pass) (text : String) : Pass :=
  let evaluated := p.memo.evaluate text x
  match evaluated.result with
  | .error fault =>
    { p with
      memo := evaluated.memo
      notices := p.notices ++ evaluated.notices ++ [.skipped text fault] }
  | .ok outcome =>
    { totals := if only.keeps outcome.matched then p.totals.push outcome else p.totals
      memo := evaluated.memo
      notices := p.notices ++ evaluated.notices }

end Pass

/-- The answer of a rule set with the memo afterwards and the notices of the pass. -/
structure Combined where
  answer : Answer
  totals : Totals
  memo : Memo
  notices : List Notice

namespace RuleSet

def size (s : RuleSet) : Nat := s.rules.length

def isEmpty (s : RuleSet) : Bool := s.rules.isEmpty

/-- Evaluates the rules in order on one value. -/
def pass (s : RuleSet) (x : Binary64) (only : Filter) (memo : Memo) : Pass :=
  s.rules.foldl (Pass.step x only) ⟨.empty, memo, []⟩

/-- Evaluates the rules on one value and folds the kept outcomes into one number. -/
def combine (s : RuleSet) (x : Binary64) (c : Settings) (memo : Memo) (words : List UInt64) :
    Combined :=
  let p := s.pass x c.only memo
  ⟨p.totals.answer c.strategy words, p.totals, p.memo, p.notices⟩

/-- Combines the rules on one value after the other. The memo and the words that are left go on
from value to value. -/
def combineEach (s : RuleSet) (c : Settings) (memo : Memo) (words : List UInt64) :
    List Binary64 → List Combined
  | [] => []
  | x :: xs =>
    let combined := s.combine x c memo words
    combined :: combineEach s c combined.memo combined.answer.words xs

end RuleSet

end ScaleFactor
