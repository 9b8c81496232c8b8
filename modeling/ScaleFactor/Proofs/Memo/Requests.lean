import Mathlib.Data.List.DropRight
import ScaleFactor.Proofs.Memo.Callers

/-!
# What a request changes

A request for a rule changes a memo only if the text is new to it and can be read. Even a full memo
is left alone by any other request, although a full memo is emptied for a new rule. `fetch_of_known`
and `fetch_of_new` list the three things that can happen, each with the whole memo and all notices
afterwards, so that what changed and what did not is there to read.

Over a run of requests the notices keep the account. `log` is what the requests report, with a mark
wherever the memo was told to forget, and the memo always holds as many rules as were reported since
it was last empty (`size_after`).
-/

namespace ScaleFactor.Memo

variable {m : Memo} {text : String} {rule : Rule}

/-! ## One request -/

theorem contains_eq_false_iff : m.contains text = false ↔ m.find? text = none :=
  Option.isSome_eq_false_iff.trans Option.isNone_iff_eq_none

theorem find?_eq_none_iff : m.find? text = none ↔ text ∉ m.texts := by
  rw [find?, List.lookup_eq_none_iff, texts, List.mem_map]
  constructor
  · rintro h ⟨entry, hentry, rfl⟩
    exact bne_iff_ne.1 (h entry hentry) rfl
  · intro h entry hentry
    exact bne_iff_ne.2 fun heq => h ⟨entry, hentry, heq.symm⟩

theorem contains_iff_mem_texts : m.contains text = true ↔ text ∈ m.texts := by
  rw [← not_iff_not, Bool.not_eq_true, contains_eq_false_iff, find?_eq_none_iff]

/-- A memo is not touched by a request that fails or asks for what it knows. -/
theorem fetch_of_known (hm : m.Sound)
    (h : (∃ fault, (m.fetch text).result = .error fault) ∨ m.contains text = true) :
    m.fetch text = ⟨Rule.read text, m, []⟩ := by
  have hresult := hm.fetch_result text
  rcases m.fetch_cases text with
    ⟨rule, -, hfetch⟩ | ⟨fault, -, -, hfetch⟩ | ⟨rule, hfind, hread, hfetch⟩
  · rw [← hresult, hfetch]
  · rw [← hresult, hfetch]
  · -- a new rule: the request neither fails nor is it known
    rcases h with ⟨fault, hfault⟩ | hknown
    · rw [hfetch] at hfault
      cases hfault
    · rw [contains_eq_false_iff.2 hfind] at hknown
      cases hknown

/-- With nothing under the text, nothing is taken out to keep a rule there. -/
theorem keep_of_room (hfind : m.find? text = none) (hroom : m.size < m.limit) (rule : Rule) :
    m.keep text rule = ({ m with entries := (text, rule) :: m.entries }, [.compiled text]) := by
  have hothers : m.entries.filter (·.1 ≠ text) = m.entries := by
    refine List.filter_eq_self.2 fun entry hentry => ?_
    have hne : text ≠ entry.1 := bne_iff_ne.1 (List.lookup_eq_none_iff.1 hfind entry hentry)
    exact decide_eq_true hne.symm
  rcases m.keep_cases text rule with ⟨hfull, -⟩ | ⟨-, hkeep⟩
  · exact absurd hfull (Nat.not_le_of_lt hroom)
  · rw [hkeep, hothers]

/-- A new rule comes in beside the others while there is room, and alone when there is none. -/
theorem fetch_of_new (hm : m.Sound) (hfind : m.find? text = none)
    (hread : Rule.read text = .ok rule) :
    (m.size < m.limit ∧ m.fetch text =
        ⟨.ok rule, { m with entries := (text, rule) :: m.entries }, [.compiled text]⟩) ∨
      (m.size = m.limit ∧ m.fetch text =
        ⟨.ok rule, { m with entries := [(text, rule)] }, [.emptied m.size, .compiled text]⟩) := by
  have hfetch : m.fetch text = ⟨.ok rule, (m.keep text rule).1, (m.keep text rule).2⟩ := by
    rcases m.fetch_cases text with ⟨_, hknown, -⟩ | ⟨_, -, hfault, -⟩ | ⟨rule', -, hread', hfetch⟩
    · rw [hfind] at hknown
      cases hknown
    · rw [hread] at hfault
      cases hfault
    · rw [hread] at hread'
      cases hread'
      exact hfetch
  rcases m.keep_cases text rule with ⟨hfull, hkeep⟩ | ⟨hroom, -⟩
  · refine Or.inr ⟨Nat.le_antisymm hm.size_le hfull, ?_⟩
    rw [hfetch, hkeep]
  · refine Or.inl ⟨hroom, ?_⟩
    rw [hfetch, keep_of_room hfind hroom]

theorem limit_fetch (m : Memo) (text : String) : (m.fetch text).memo.limit = m.limit := by
  rcases m.fetch_cases text with ⟨rule, -, h⟩ | ⟨fault, -, -, h⟩ | ⟨rule, -, -, h⟩
  · rw [h]
  · rw [h]
  · rw [h]
    exact limit_keep ..

theorem limit_serve (m : Memo) (request : Request) : (m.serve request).limit = m.limit := by
  cases request with
  | fetch text => exact m.limit_fetch text
  | evaluate text x => exact m.limit_fetch text
  | forget => exact m.limit_forget

theorem limit_after (m : Memo) (requests : List Request) : (m.after requests).limit = m.limit := by
  induction requests generalizing m with
  | nil => rfl
  | cons request requests ih =>
    show ((m.serve request).after requests).limit = m.limit
    rw [ih, limit_serve]

/-! ## The account of a run -/

/-- What becomes known of a memo in the course of time. -/
inductive Event where
  | notice (n : Notice)
  /-- The memo was told to forget everything. -/
  | forgot
  deriving DecidableEq, Repr

namespace Event

/-- A rule is remembered from now on. -/
def isStored : Event → Bool
  | notice (.compiled _) => true
  | _ => false

/-- The memo has just become empty. -/
def isCleared : Event → Bool
  | notice (.emptied _) => true
  | notice _ => false
  | forgot => true

end Event

/-- What a request makes known. -/
def events (m : Memo) : Request → List Event
  | .fetch text => (m.fetch text).notices.map .notice
  | .evaluate text x => (m.evaluate text x).notices.map .notice
  | .forget => [.forgot]

/-- What requests make known, one after the other. -/
def log (m : Memo) : List Request → List Event
  | [] => []
  | request :: requests => m.events request ++ (m.serve request).log requests

/-- How many rules are remembered since the memo was last empty. -/
def storedSinceCleared (events : List Event) : Nat :=
  (events.rtakeWhile fun e => !e.isCleared).countP Event.isStored

theorem storedSinceCleared_stored (past : List Event) (text : String) :
    storedSinceCleared (past ++ [.notice (.compiled text)]) = storedSinceCleared past + 1 := by
  rw [storedSinceCleared, List.rtakeWhile_concat_pos _ _ _ rfl, List.countP_append]
  rfl

theorem storedSinceCleared_cleared (past : List Event) {e : Event} (h : e.isCleared = true) :
    storedSinceCleared (past ++ [e]) = 0 := by
  rw [storedSinceCleared, List.rtakeWhile_concat_neg _ _ _ (by simp [h])]
  rfl

/-- The account is kept by a request for a rule. -/
theorem size_fetch (hm : m.Sound) {past : List Event} (hpast : m.size = storedSinceCleared past)
    (text : String) : (m.fetch text).memo.size =
      storedSinceCleared (past ++ (m.fetch text).notices.map .notice) := by
  rcases m.fetch_cases text with
    ⟨rule, -, hfetch⟩ | ⟨fault, -, -, hfetch⟩ | ⟨rule, hfind, hread, -⟩
  · rw [hfetch]
    simpa using hpast
  · rw [hfetch]
    simpa using hpast
  · rcases fetch_of_new hm hfind hread with ⟨-, hfetch⟩ | ⟨-, hfetch⟩
    · rw [hfetch]
      show m.size + 1 = storedSinceCleared (past ++ [.notice (.compiled text)])
      rw [storedSinceCleared_stored, hpast]
    · -- the memo was emptied on the way, and only this rule came after that
      rw [hfetch]
      show 1 = storedSinceCleared
        (past ++ ([.notice (.emptied m.size)] ++ [.notice (.compiled text)]))
      rw [← List.append_assoc, storedSinceCleared_stored, storedSinceCleared_cleared past rfl]

theorem size_serve (hm : m.Sound) {past : List Event} (hpast : m.size = storedSinceCleared past)
    (request : Request) :
    (m.serve request).size = storedSinceCleared (past ++ m.events request) := by
  cases request with
  | fetch text => exact size_fetch hm hpast text
  | evaluate text x => exact size_fetch hm hpast text
  | forget => exact (storedSinceCleared_cleared past rfl).symm

/-- The account is kept by a run. -/
theorem size_after (hm : m.Sound) {past : List Event} (hpast : m.size = storedSinceCleared past)
    (requests : List Request) :
    (m.after requests).size = storedSinceCleared (past ++ m.log requests) := by
  induction requests generalizing m past with
  | nil =>
    rw [log, List.append_nil]
    exact hpast
  | cons request requests ih =>
    rw [log, ← List.append_assoc]
    exact ih (hm.serve request) (size_serve hm hpast request)

/-- **A request changes only what it must.** Let a memo have been shared by any callers, in any
order of their sections, and have served any requests after that. A request that fails or asks for a
known text changes nothing and reports nothing, even if the memo is full. Any other request is
answered with the rule that the text is read as, which is remembered from then on and reported last.
While there was room, all other texts are known as before, there is one rule more and that is the
whole report. When there was none, the rule is the only one left, and just before it is reported the
memo is reported to have been emptied of as many rules as it held. So in a run from a new memo there
are always as many rules as were reported since it was last empty. -/
theorem fetch_changes_only {ι : Type} [DecidableEq ι] (capacity : Nat) (turns : List (Turn ι))
    (requests : List Request) (text : String) :
    let m := ((Callers.start ι capacity).run turns).memo.after requests
    let f := m.fetch text
    ((∃ fault, f.result = .error fault) ∨ m.contains text = true → f.memo = m ∧ f.notices = []) ∧
      (∀ rule, f.result = .ok rule → m.contains text = false →
        Rule.read text = .ok rule ∧
        f.memo.find? text = some rule ∧
        f.notices.getLast? = some (.compiled text) ∧
        ((m.size < max capacity 1 ∧
            (∀ other, other ≠ text → f.memo.find? other = m.find? other) ∧
            f.memo.size = m.size + 1 ∧
            f.notices = [.compiled text]) ∨
          (m.size = max capacity 1 ∧
            f.memo.entries = [(text, rule)] ∧
            f.notices = [.emptied m.size, .compiled text]))) ∧
      ((empty capacity).after requests).size =
        storedSinceCleared ((empty capacity).log requests) := by
  intro m f
  have hm : m.Sound := ((Callers.sound_start capacity).run turns).memo.after requests
  have hlimit : m.limit = max capacity 1 := by
    rw [limit_after, Callers.limit_run]
    exact limit_empty capacity
  refine ⟨?_, ?_, ?_⟩
  · intro h
    have hfetch : f = ⟨Rule.read text, m, []⟩ := fetch_of_known hm h
    rw [hfetch]
    exact ⟨rfl, rfl⟩
  · intro rule hresult hnew
    have hread : Rule.read text = .ok rule := by
      rw [← hm.fetch_result text]
      exact hresult
    rw [← hlimit]
    rcases fetch_of_new hm (contains_eq_false_iff.1 hnew) hread with
      ⟨hroom, hfetch⟩ | ⟨hfull, hfetch⟩
    · replace hfetch : f = _ := hfetch
      rw [hfetch]
      refine ⟨hread, List.lookup_cons_self, rfl, Or.inl ⟨hroom, ?_, rfl, rfl⟩⟩
      intro other hne
      show List.lookup other ((text, rule) :: m.entries) = m.find? other
      rw [List.lookup_cons, beq_false_of_ne hne]
      rfl
    · replace hfetch : f = _ := hfetch
      rw [hfetch]
      exact ⟨hread, List.lookup_cons_self, rfl, Or.inr ⟨hfull, rfl, rfl⟩⟩
  · have hempty : (empty capacity).size = storedSinceCleared [] := rfl
    exact size_after (sound_empty capacity) hempty requests

example : storedSinceCleared ((empty 2).log
    [.fetch "<1?1:2", .fetch "<1?1:2", .fetch "x", .fetch "<2?1:2", .fetch "<3?1:2"]) = 1 := by
  decide +kernel

end ScaleFactor.Memo
