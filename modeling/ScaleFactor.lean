import ScaleFactor.Session
import ScaleFactor.Proofs.Literal.Alphabet
import ScaleFactor.Proofs.Rule.Grammar
import ScaleFactor.Proofs.Memo.Callers
import ScaleFactor.Proofs.RuleSet.Plain
import ScaleFactor.Proofs.Totals.History
import ScaleFactor.Proofs.Binary64.Order
import ScaleFactor.Proofs.Totals.Bounds
import ScaleFactor.Proofs.Totals.Parts
import ScaleFactor.Proofs.RuleSet.Answer
import ScaleFactor.Proofs.RuleSet.Partition
import ScaleFactor.Proofs.RuleSet.Append
import ScaleFactor.Proofs.Changes
import ScaleFactor.Proofs.RuleSet.StepFunction
import ScaleFactor.Proofs.Session.LastWrite
import ScaleFactor.Proofs.Totals.Extremes
import ScaleFactor.Proofs.RuleSet.Rearranged
import ScaleFactor.Proofs.Rule.Blame
import ScaleFactor.Proofs.Json.Written
import ScaleFactor.Proofs.Document.RoundTrip
import ScaleFactor.Proofs.Binary64.Whole
import ScaleFactor.Proofs.Literal.Whole
import ScaleFactor.Proofs.Scaler.Comparison
import ScaleFactor.Proofs.Draw.Source
import ScaleFactor.Proofs.Draw.Uniform
import ScaleFactor.Proofs.Totals.Random
import ScaleFactor.Proofs.RuleSet.Draws
import ScaleFactor.Proofs.Memo.Requests
import ScaleFactor.Proofs.Memo.Rounds
import ScaleFactor.Proofs.RuleSet.CompiledOnce
import ScaleFactor.Proofs.Rule.Range
import ScaleFactor.Proofs.RuleSet.OrderLaws
import ScaleFactor.Proofs.Binary64.Exact
import ScaleFactor.Proofs.RuleSet.Singleton
import ScaleFactor.Proofs.Binary64.Nearest
import ScaleFactor.Proofs.Binary64.Value
import ScaleFactor.Proofs.Binary64.Truncation
import ScaleFactor.Proofs.Scaler.Truncation
import ScaleFactor.Proofs.Binary64.Sums
import ScaleFactor.Proofs.Binary64.Drift
import ScaleFactor.Proofs.RuleSet.Sums
import ScaleFactor.Proofs.Json.Grammar
import ScaleFactor.Proofs.Json.Spelled
import ScaleFactor.Proofs.Json.Skipped
import ScaleFactor.Proofs.Document.Members
import ScaleFactor.Proofs.Document.KnownMembers
import ScaleFactor.Proofs.Binary64.Rational
import ScaleFactor.Proofs.Literal.Grammar
import ScaleFactor.Proofs.Literal.Rounded
import ScaleFactor.Proofs.Literal.Classes
