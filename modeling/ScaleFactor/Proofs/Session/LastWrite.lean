import ScaleFactor.Proofs.RuleSet.Answer
import ScaleFactor.Session

/-!
# Sessions and what was asked of them

A scaler is set up in three parts, its rules, its strategy and its filter. `Request.assignment` is
the table of what each request assigns to them, or what is wrong with it; it knows nothing of
sessions. `serve_cases` lists what a session can do with a request: refuse it, carry its assignment
out, or answer a question. So each part of a scaler is what was assigned to it last, and no part
knows of the others (`scaler_after`).

The memo is the only other trace that requests leave, apart from the words. It stays in order
(`sound_memo_after`), so no answer can tell what was asked before.
-/

namespace ScaleFactor

namespace Session

/-! ## What a request assigns -/

/-- Values for some of the parts of a scaler. -/
structure Assignment where
  rules : Option RuleSet := none
  strategy : Option Strategy := none
  only : Option Filter := none

/-- Puts the values in place. The other parts keep theirs. -/
def Assignment.apply (a : Assignment) (s : Scaler) : Scaler where
  rules := a.rules.getD s.rules
  settings :=
    { strategy := a.strategy.getD s.settings.strategy
      only := a.only.getD s.settings.only }

namespace Assignment

def ofRules (s : RuleSet) : Assignment := { rules := some s }

def ofSettings (c : Settings) : Assignment := { strategy := some c.strategy, only := some c.only }

def ofStrategy (s : Strategy) : Assignment := { strategy := some s }

def ofOnly (f : Filter) : Assignment := { only := some f }

/-- An assignment is one of rules or one of settings. -/
def Apart (a : Assignment) : Prop := a.rules = none ∨ a.strategy = none ∧ a.only = none

variable {a : Assignment}

theorem Apart.settings_apply (h : a.Apart) (hrules : a.rules ≠ none) (s : Scaler) :
    (a.apply s).settings = s.settings := by
  rcases h with hnone | ⟨hstrategy, honly⟩
  · exact absurd hnone hrules
  · rw [apply, hstrategy, honly]
    rfl

theorem Apart.rules_apply (h : a.Apart) (hsettings : a.strategy ≠ none ∨ a.only ≠ none)
    (s : Scaler) : (a.apply s).rules = s.rules := by
  rcases h with hnone | ⟨hstrategy, honly⟩
  · rw [apply, hnone]
    rfl
  · rcases hsettings with h | h
    · exact absurd hstrategy h
    · exact absurd honly h

end Assignment

/-- What a request assigns, or what is wrong with it. A question assigns nothing. -/
def Request.assignment : Request → Except Error Assignment
  | .rules s => .ok (.ofRules s)
  | .rulesText text => ((RuleSet.ofJson text).mapError .json).map .ofRules
  | .settings c => .ok (.ofSettings c)
  | .settingsText text => ((Settings.ofJson text).mapError .json).map .ofSettings
  | .strategy s => .ok (.ofStrategy s)
  | .strategyNamed name => ((Strategy.ofName name).mapError .strategy).map .ofStrategy
  | .strategyCoded code => ((Strategy.ofCode code).mapError .strategy).map .ofStrategy
  | .only f => .ok (.ofOnly f)
  | .onlyMatched flag => .ok (.ofOnly (.ofFlag flag))
  | .float _ => .ok {}
  | .whole _ => .ok {}

/-- What a request assigns to a part. What is wrong with a request keeps it from assigning. -/
def Request.assigned? {α : Type} (part : Assignment → Option α) (request : Request) : Option α :=
  request.assignment.toOption.bind part

/-- The last value that requests assign to a part, or `initial` if they assign none. -/
def lastAssigned {α : Type} (part : Assignment → Option α) (initial : α)
    (requests : List Request) : α :=
  (requests.filterMap (Request.assigned? part)).getLast?.getD initial

/-- What comes first is what the later requests start from. -/
theorem lastAssigned_cons {α : Type} (part : Assignment → Option α) (initial : α)
    (request : Request) (requests : List Request) :
    lastAssigned part initial (request :: requests) =
      lastAssigned part ((request.assigned? part).getD initial) requests := by
  unfold lastAssigned
  cases h : request.assigned? part with
  | none => rw [List.filterMap_cons_none h, Option.getD_none]
  | some value =>
    rw [List.filterMap_cons_some h, List.getLast?_cons, Option.getD_some, Option.getD_some]

theorem eq_of_map_eq_ok {α : Type} {read : Except Error α} {part : α → Assignment}
    {a : Assignment} (h : read.map part = .ok a) : ∃ value, part value = a := by
  cases read with
  | error cause => cases h
  | ok value => exact ⟨value, Except.ok.inj h⟩

theorem Request.apart_assignment {request : Request} {a : Assignment}
    (h : request.assignment = .ok a) : a.Apart := by
  cases request with
  | rules s =>
    cases h
    exact Or.inr ⟨rfl, rfl⟩
  | rulesText text =>
    obtain ⟨s, rfl⟩ := eq_of_map_eq_ok h
    exact Or.inr ⟨rfl, rfl⟩
  | settingsText | strategyNamed | strategyCoded =>
    obtain ⟨value, rfl⟩ := eq_of_map_eq_ok h
    exact Or.inl rfl
  | settings | strategy | only | onlyMatched | float | whole =>
    cases h
    exact Or.inl rfl

/-! ## What a session can do -/

variable (s : Session)

/-- Refuses a request. -/
def refuse (cause : Error) : Step := ⟨.refused cause, s, []⟩

/-- Carries an assignment out. -/
def setUp (a : Assignment) : Step := ⟨.done, { s with scaler := a.apply s.scaler }, []⟩

/-- What is read into a scaler is put in place, unless it cannot be read. -/
theorem assign_cases {α : Type} (read : Except Error α) (put : α → Scaler)
    (part : α → Assignment) (h : ∀ value, put value = (part value).apply s.scaler) :
    (∃ cause, read.map part = .error cause ∧ s.assign (read.map put) = s.refuse cause) ∨
      ∃ a, read.map part = .ok a ∧ s.assign (read.map put) = s.setUp a := by
  cases read with
  | error cause => exact Or.inl ⟨cause, rfl, rfl⟩
  | ok value =>
    refine Or.inr ⟨part value, rfl, ?_⟩
    show (⟨.done, { s with scaler := put value }, []⟩ : Step) = _
    rw [h]
    rfl

/-- A session refuses a request or sets its scaler up, by what the request assigns. The other
requests are questions. They are answered by combining the rules on some value, which leaves its
traces in the memo and the words and nowhere else. -/
theorem serve_cases (request : Request) :
    (∃ cause, request.assignment = .error cause ∧ s.serve request = s.refuse cause) ∨
      (∃ a, request.assignment = .ok a ∧ s.serve request = s.setUp a) ∨
      (∃ x reply notices, request.assignment = .ok {} ∧ (∀ cause, reply ≠ .refused cause) ∧
        let combined := s.scaler.float x s.memo s.words
        s.serve request = ⟨reply,
          { s with memo := combined.memo, words := combined.answer.words }, notices⟩) := by
  cases request with
  | rules | settings | strategy | only | onlyMatched => exact Or.inr (Or.inl ⟨_, rfl, rfl⟩)
  | rulesText text =>
    exact (s.assign_cases _ s.scaler.withRules .ofRules fun _ => rfl).imp_right Or.inl
  | settingsText text =>
    exact (s.assign_cases _ s.scaler.withSettings .ofSettings fun _ => rfl).imp_right Or.inl
  | strategyNamed | strategyCoded =>
    exact (s.assign_cases _ s.scaler.withStrategy .ofStrategy fun _ => rfl).imp_right Or.inl
  | float x =>
    refine Or.inr (Or.inr ⟨x, _, _, rfl, ?_, rfl⟩)
    intro cause h
    cases h
  | whole n =>
    refine Or.inr (Or.inr ⟨.ofInt n.toInt, _, _, rfl, ?_, rfl⟩)
    intro cause h
    cases h

variable {s} {request : Request}

theorem scaler_serve (s : Session) (request : Request) : (s.serve request).session.scaler =
    { rules := (request.assigned? (·.rules)).getD s.scaler.rules
      settings :=
        { strategy := (request.assigned? (·.strategy)).getD s.scaler.settings.strategy
          only := (request.assigned? (·.only)).getD s.scaler.settings.only } } := by
  unfold Request.assigned?
  rcases s.serve_cases request with ⟨cause, h, hserve⟩ | ⟨a, h, hserve⟩ | ⟨_, _, _, h, -, hserve⟩
  · rw [hserve, h]
    rfl
  · rw [hserve, h]
    rfl
  · rw [hserve, h]
    rfl

theorem sound_memo_serve (hs : s.memo.Sound) (request : Request) :
    (s.serve request).session.memo.Sound := by
  rcases s.serve_cases request with
    ⟨_, -, hserve⟩ | ⟨_, -, hserve⟩ | ⟨x, _, _, -, -, hserve⟩
  · rw [hserve]
    exact hs
  · rw [hserve]
    exact hs
  · rw [hserve]
    exact RuleSet.sound_memo_combine hs s.scaler.rules x s.scaler.settings s.words

theorem reply_serve_eq_refused_iff (cause : Error) :
    (s.serve request).reply = .refused cause ↔ request.assignment = .error cause := by
  rcases s.serve_cases request with
    ⟨cause', h, hserve⟩ | ⟨a, h, hserve⟩ | ⟨x, reply, notices, h, hreply, hserve⟩
  · rw [hserve, h]
    exact ⟨fun heq => congrArg _ (Reply.refused.inj heq),
      fun heq => congrArg _ (Except.error.inj heq)⟩
  · rw [hserve, h]
    exact ⟨nofun, nofun⟩
  · rw [hserve, h]
    exact ⟨fun heq => absurd heq (hreply cause), nofun⟩

theorem session_serve_of_error {cause : Error} (h : request.assignment = .error cause) :
    (s.serve request).session = s := by
  rcases s.serve_cases request with ⟨_, -, hserve⟩ | ⟨_, hok, -⟩ | ⟨_, _, _, hok, -⟩
  · rw [hserve]
    rfl
  · rw [h] at hok
    cases hok
  · rw [h] at hok
    cases hok

theorem scaler_serve_of_ok {a : Assignment} (h : request.assignment = .ok a) :
    (s.serve request).session.scaler = a.apply s.scaler := by
  rw [scaler_serve, Request.assigned?, Request.assigned?, Request.assigned?, h]
  rfl

/-! ## What a session comes to -/

/-- A session after requests. -/
def after (s : Session) (requests : List Request) : Session :=
  requests.foldl (fun s request => (s.serve request).session) s

/-- **What is left of the requests on a scaler is the last value for each part.** -/
theorem scaler_after (s : Session) (requests : List Request) : (s.after requests).scaler =
    { rules := lastAssigned (·.rules) s.scaler.rules requests
      settings :=
        { strategy := lastAssigned (·.strategy) s.scaler.settings.strategy requests
          only := lastAssigned (·.only) s.scaler.settings.only requests } } := by
  induction requests generalizing s with
  | nil => rfl
  | cons request requests ih =>
    show ((s.serve request).session.after requests).scaler = _
    rw [ih, scaler_serve, lastAssigned_cons, lastAssigned_cons, lastAssigned_cons]

theorem sound_memo_after (hs : s.memo.Sound) (requests : List Request) :
    (s.after requests).memo.Sound := by
  induction requests generalizing s with
  | nil => exact hs
  | cons request requests ih => exact ih (sound_memo_serve hs request)

/-- A request comes to whatever the session has become before it. -/
theorem getElem?_run (s : Session) (before : List Request) (request : Request)
    (behind : List Request) :
    (s.run (before ++ request :: behind))[before.length]? = some ((s.after before).serve request) := by
  induction before generalizing s with
  | nil => rfl
  | cons first before ih => exact ih (s.serve first).session

theorem reply_serve_float (hs : s.memo.Sound) (h : s.scaler.settings.strategy ≠ .random)
    (x : Binary64) :
    (s.serve (.float x)).reply = .float (s.scaler.rules.settledResult s.scaler.settings x) :=
  congrArg Reply.float (RuleSet.result_combine hs s.scaler.rules x h s.words)

/-- Without a word about the settings, they are the default ones. -/
theorem settings_of_start {start : Scaler}
    (h : start = {} ∨ ∃ text, Scaler.ofJson text = .ok start) : start.settings = {} := by
  rcases h with rfl | ⟨text, h⟩
  · rfl
  · unfold Scaler.ofJson at h
    cases hread : (RuleSet.ofJson text).mapError Error.json with
    | error cause =>
      rw [hread] at h
      cases h
    | ok rules =>
      rw [hread] at h
      cases h
      rfl

/-- **Each part of a scaler is what was assigned to it last, and nothing else is left of what was
asked.** A scaler starts with no rules or with those of a text, with the default settings, and the
memo with anything that it may have learned before. Whatever is asked then, one request after the
other: the rules, the strategy and the filter are the last ones that were assigned, where a strategy
and a filter may have come as settings. Rules are assigned without a change to the settings, and the
other way round. What cannot be read or is not known is refused, and a refusal changes nothing at
all, nor does a question change the scaler, whether it has an answer or not. And unless it is left to
chance, the answer on a number is the one that the rules come to under these settings with any other
memo, among them a new one, even if others use the memo before the question. -/
theorem serve_after_last_assigned {start : Scaler}
    (hstart : start = {} ∨ ∃ text, Scaler.ofJson text = .ok start) (capacity : Nat)
    (known : List Memo.Request) (words : List UInt64) (before : List Request) :
    let opened : Session := ⟨start, (Memo.empty capacity).after known, words⟩
    let s := opened.after before
    let rules := lastAssigned (·.rules) start.rules before
    let settings : Settings :=
      { strategy := lastAssigned (·.strategy) .last before
        only := lastAssigned (·.only) .all before }
    (∀ request behind,
      (opened.run (before ++ request :: behind))[before.length]? = some (s.serve request)) ∧
    s.scaler = ⟨rules, settings⟩ ∧
    (∀ request a, request.assignment = .ok a →
      (a.rules ≠ none → (s.serve request).session.scaler.settings = settings) ∧
      (a.strategy ≠ none ∨ a.only ≠ none → (s.serve request).session.scaler.rules = rules)) ∧
    (∀ request cause,
      ((s.serve request).reply = .refused cause ↔ request.assignment = .error cause) ∧
      ((s.serve request).reply = .refused cause → (s.serve request).session = s)) ∧
    (∀ x, (s.serve (.float x)).session.scaler = s.scaler) ∧
    (∀ n, (s.serve (.whole n)).session.scaler = s.scaler) ∧
    (settings.strategy ≠ .random → ∀ x meanwhile otherCapacity otherKnown otherWords,
      (({ s with memo := s.memo.after meanwhile } : Session).serve (.float x)).reply =
        .float (rules.combine x settings
          ((Memo.empty otherCapacity).after otherKnown) otherWords).answer.result) := by
  intro opened s rules settings
  have hscaler : s.scaler = ⟨rules, settings⟩ := by
    show (opened.after before).scaler = _
    rw [scaler_after, show opened.scaler.settings = {} from settings_of_start hstart]
  refine ⟨opened.getElem?_run before, hscaler, ?_, ?_, fun x => rfl, fun n => rfl, ?_⟩
  · intro request a h
    have hapart := Request.apart_assignment h
    rw [scaler_serve_of_ok h]
    constructor
    · intro hrules
      rw [hapart.settings_apply hrules, hscaler]
    · intro hsettings
      rw [hapart.rules_apply hsettings, hscaler]
  · intro request cause
    refine ⟨reply_serve_eq_refused_iff cause, ?_⟩
    intro h
    exact session_serve_of_error ((reply_serve_eq_refused_iff cause).1 h)
  · intro hrandom x meanwhile otherCapacity otherKnown otherWords
    have hmemo : s.memo.Sound :=
      sound_memo_after (s := opened) (Memo.sound_after_empty capacity known) before
    rw [RuleSet.result_combine (Memo.sound_after_empty otherCapacity otherKnown) rules x hrandom]
    have hreply := reply_serve_float (s := { s with memo := s.memo.after meanwhile })
      (hmemo.after meanwhile) (by rw [hscaler]; exact hrandom) x
    rw [hscaler] at hreply ⊢
    exact hreply

theorem serve_after_last_assigned_past_refusals :
    let start : Scaler := .ofRules ⟨["<200?1:1.1"]⟩
    let before : List Request :=
      [.strategyNamed "sum", .rulesText "[", .strategyNamed "total", .float .zero,
        .onlyMatched true]
    let s := (⟨start, Memo.empty 1, []⟩ : Session).after before
    (start = {} ∨ ∃ text, Scaler.ofJson text = .ok start) ∧ Strategy.sum ≠ .random ∧
      s.scaler = ⟨start.rules, ⟨.sum, .matched⟩⟩ ∧
      (s.serve (.float .zero)).reply =
        .float (start.rules.combine .zero ⟨.sum, .matched⟩ (Memo.empty 2) []).answer.result := by
  intro start before s
  have hstart : start = {} ∨ ∃ text, Scaler.ofJson text = .ok start := by
    refine Or.inr ⟨"[\"<200?1:1.1\"]", ?_⟩
    have hread : (Scaler.ofJson "[\"<200?1:1.1\"]").toOption = some start := by decide +kernel
    cases h : Scaler.ofJson "[\"<200?1:1.1\"]" with
    | error cause =>
      rw [h] at hread
      cases hread
    | ok read =>
      rw [h] at hread
      exact congrArg _ (Option.some.inj hread)
  have hrules : lastAssigned (·.rules) start.rules before = start.rules := by decide +kernel
  have hstrategy : lastAssigned (·.strategy) .last before = .sum := by decide +kernel
  have honly : lastAssigned (·.only) .all before = .matched := by decide +kernel
  have hsum : Strategy.sum ≠ .random := by decide
  obtain ⟨-, hscaler, -, -, -, -, hreply⟩ := serve_after_last_assigned hstart 1 [] [] before
  rw [hrules, hstrategy, honly] at hscaler hreply
  exact ⟨hstart, hsum, hscaler, hreply hsum .zero [] 2 [] []⟩

end Session

end ScaleFactor
