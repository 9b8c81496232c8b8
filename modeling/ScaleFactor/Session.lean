import ScaleFactor.Document.Rules
import ScaleFactor.Document.Settings
import ScaleFactor.Error
import ScaleFactor.Scaler

/-!
# Sessions

A scaler in use. It is set up and asked in any order; its rules are fetched through one memo and
its random choices are drawn from one source of words, and both go on from request to request.

What is set up by a text, a name or a code may be refused. A refusal leaves the scaler as it was,
and so does a question, whether it has an answer or not.
-/

namespace ScaleFactor

/-- A scaler for the rules of a JSON text, with the default settings. -/
def Scaler.ofJson (text : String) : Except Error Scaler :=
  ((RuleSet.ofJson text).mapError .json).map Scaler.ofRules

/-- A scaler with what it works on. -/
structure Session where
  scaler : Scaler := {}
  memo : Memo := .shared
  words : List UInt64 := []

namespace Session

/-- What can be asked of a session. -/
inductive Request where
  | rules (rules : RuleSet)
  /-- The rules of a JSON text. -/
  | rulesText (text : String)
  | settings (settings : Settings)
  /-- The settings of a JSON text. -/
  | settingsText (text : String)
  | strategy (strategy : Strategy)
  | strategyNamed (name : String)
  | strategyCoded (code : Nat)
  | only (only : Filter)
  /-- Only matched outcomes, or only unmatched ones. -/
  | onlyMatched (flag : Bool)
  /-- The scale factor for a floating-point number. -/
  | float (x : Binary64)
  /-- The scale factor for a whole number. -/
  | whole (n : Int64)
  deriving DecidableEq, Repr

/-- What a session replies. -/
inductive Reply where
  /-- The scaler is set up as requested. -/
  | done
  | refused (cause : Error)
  | float (result : Except Overlap Binary64)
  | whole (result : Except Overlap Int64)

/-- The reply to a request, with the session afterwards and the notices on the way. -/
structure Step where
  reply : Reply
  session : Session
  notices : List Notice

/-- Sets the scaler up anew, unless that is refused. -/
def assign (s : Session) : Except Error Scaler → Step
  | .ok scaler => ⟨.done, { s with scaler := scaler }, []⟩
  | .error cause => ⟨.refused cause, s, []⟩

/-- Serves one request. -/
def serve (s : Session) : Request → Step
  | .rules rules => s.assign (.ok (s.scaler.withRules rules))
  | .rulesText text =>
    s.assign (((RuleSet.ofJson text).mapError .json).map s.scaler.withRules)
  | .settings settings => s.assign (.ok (s.scaler.withSettings settings))
  | .settingsText text =>
    s.assign (((Settings.ofJson text).mapError .json).map s.scaler.withSettings)
  | .strategy strategy => s.assign (.ok (s.scaler.withStrategy strategy))
  | .strategyNamed name =>
    s.assign (((Strategy.ofName name).mapError .strategy).map s.scaler.withStrategy)
  | .strategyCoded code =>
    s.assign (((Strategy.ofCode code).mapError .strategy).map s.scaler.withStrategy)
  | .only only => s.assign (.ok (s.scaler.withOnly only))
  | .onlyMatched flag => s.assign (.ok (s.scaler.withOnly (.ofFlag flag)))
  | .float x =>
    let r := s.scaler.float x s.memo s.words
    ⟨.float r.answer.result, { s with memo := r.memo, words := r.answer.words }, r.notices⟩
  | .whole n =>
    let r := s.scaler.whole n s.memo s.words
    ⟨.whole r.result, { s with memo := r.memo, words := r.words }, r.notices⟩

/-- Serves requests one after the other. -/
def run (s : Session) : List Request → List Step
  | [] => []
  | request :: requests =>
    let step := s.serve request
    step :: run step.session requests

end Session

end ScaleFactor
