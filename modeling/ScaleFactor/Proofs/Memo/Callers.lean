import Mathlib.Logic.Function.Basic
import ScaleFactor.Proofs.Memo.Sound

/-!
# A memo shared by many callers

A request for a rule is served in two sections, and others may be served between them. In the first
one the text is looked up; a missing one is read, and if it can be read the caller holds its rule
from then on. In the second section the caller has the rule kept. By then the memo may have been
emptied or have got the same text from somebody else, so what the first section saw is no longer
to be relied on.

`Callers` is the state of such a memo with all its callers, and `Turn` says who is served next. A
list of turns is one order of sections, and every order is such a list: a caller may ask whenever
it holds nothing, and the turns of somebody who has nothing to do there change nothing. Any type
can serve as the callers.

`Callers.Sound` is the invariant. Its point is the rules that are held: each is still the rule of
its text, however long ago that was looked up, and no more than that is needed to keep it
(`Memo.Sound.keep`).
-/

namespace ScaleFactor.Memo

/-- A request that has been answered. -/
structure Reply (ι : Type) where
  caller : ι
  text : String
  result : Except Rule.Fault Rule

/-- A shared memo and its callers. -/
structure Callers (ι : Type) where
  memo : Memo
  /-- The rule a caller has read and not yet had kept, under its text. -/
  held : ι → Option (String × Rule)
  /-- The answered requests, the latest first. -/
  replies : List (Reply ι)
  notices : List Notice

/-- Who is served next. -/
inductive Turn (ι : Type) where
  /-- The caller looks a text up, and reads it if it is missing. -/
  | look (caller : ι) (text : String)
  /-- The caller has the rule kept that it holds. -/
  | keep (caller : ι)
  | forget (caller : ι)

namespace Callers

variable {ι : Type}

/-- Nobody has asked for anything. -/
def start (ι : Type) (capacity : Nat) : Callers ι := ⟨empty capacity, fun _ => none, [], []⟩

/-- A caller gets its answer. -/
def answer (s : Callers ι) (i : ι) (text : String) (result : Except Rule.Fault Rule) : Callers ι :=
  { s with replies := ⟨i, text, result⟩ :: s.replies }

/-- Serves one section. A caller that holds a rule has to have it kept before anything else. -/
def turn [DecidableEq ι] (s : Callers ι) : Turn ι → Callers ι
  | .look i text =>
    match s.held i with
    | some _ => s
    | none =>
      match s.memo.find? text with
      | some rule => s.answer i text (.ok rule)
      | none =>
        match Rule.read text with
        | .error fault => s.answer i text (.error fault)
        | .ok rule => { s with held := Function.update s.held i (some (text, rule)) }
  | .keep i =>
    match s.held i with
    | none => s
    | some (text, rule) =>
      let (memo, notices) := s.memo.keep text rule
      let s := s.answer i text (.ok rule)
      { s with memo, held := Function.update s.held i none, notices := s.notices ++ notices }
  | .forget i =>
    match s.held i with
    | some _ => s
    | none => { s with memo := s.memo.forget }

/-- Serves sections in the given order. -/
def run [DecidableEq ι] (s : Callers ι) (turns : List (Turn ι)) : Callers ι :=
  turns.foldl turn s

/-! ## The two sections are those of a request -/

/-- When nobody comes in between, both sections together are the request of a single caller. -/
theorem turn_look_keep [DecidableEq ι] (s : Callers ι) {i : ι} (hfree : s.held i = none)
    (text : String) :
    (s.turn (.look i text)).turn (.keep i) =
      { memo := (s.memo.fetch text).memo
        held := s.held
        replies := ⟨i, text, (s.memo.fetch text).result⟩ :: s.replies
        notices := s.notices ++ (s.memo.fetch text).notices } := by
  rcases s.memo.fetch_cases text with
    ⟨rule, hfind, hfetch⟩ | ⟨fault, hfind, hread, hfetch⟩ | ⟨rule, hfind, hread, hfetch⟩
  · simp [turn, answer, hfree, hfind, hfetch]
  · simp [turn, answer, hfree, hfind, hread, hfetch]
  · -- the rule is held between the sections, and put down again in the second one
    have hheld : Function.update s.held i none = s.held := by
      rw [← hfree, Function.update_eq_self]
    simp [turn, answer, hfree, hfind, hread, hfetch, hheld]

/-! ## The invariant -/

/-- A shared memo in order: the memo itself, the rules on their way into it, and everything that
was answered and reported so far. -/
structure Sound (s : Callers ι) : Prop where
  memo : s.memo.Sound
  held : ∀ i text rule, s.held i = some (text, rule) → Rule.read text = .ok rule
  replies : ∀ reply ∈ s.replies, reply.result = Rule.read reply.text
  emptied : ∀ count, .emptied count ∈ s.notices → count = s.memo.limit

theorem sound_start (capacity : Nat) : (start ι capacity).Sound := by
  refine ⟨sound_empty capacity, ?_, ?_, ?_⟩
  · intro i text rule h
    cases h
  · intro reply h
    cases h
  · intro count h
    cases h

namespace Sound

variable {s : Callers ι}

theorem answer (hs : s.Sound) (i : ι) {text : String} {result : Except Rule.Fault Rule}
    (h : result = Rule.read text) : (s.answer i text result).Sound := by
  refine ⟨hs.memo, hs.held, ?_, hs.emptied⟩
  intro reply hreply
  rcases List.mem_cons.1 hreply with rfl | hreply
  · exact h
  · exact hs.replies reply hreply

/-- What one caller holds may change without the others noticing. -/
theorem update_held [DecidableEq ι] (hs : s.Sound) (i : ι) {now : Option (String × Rule)}
    (h : ∀ text rule, now = some (text, rule) → Rule.read text = .ok rule) :
    ({ s with held := Function.update s.held i now } : Callers ι).Sound := by
  refine ⟨hs.memo, ?_, hs.replies, hs.emptied⟩
  intro j text rule hj
  replace hj : Function.update s.held i now j = some (text, rule) := hj
  rcases eq_or_ne j i with rfl | hne
  · rw [Function.update_self] at hj
    exact h text rule hj
  · rw [Function.update_of_ne hne] at hj
    exact hs.held j text rule hj

/-- The second section, at any later time. -/
theorem keep (hs : s.Sound) {text : String} {rule : Rule} (hread : Rule.read text = .ok rule) :
    ({ s with
        memo := (s.memo.keep text rule).1
        notices := s.notices ++ (s.memo.keep text rule).2 } : Callers ι).Sound := by
  refine ⟨hs.memo.keep hread, hs.held, hs.replies, ?_⟩
  intro count hcount
  rw [limit_keep]
  rcases List.mem_append.1 hcount with hcount | hcount
  · exact hs.emptied count hcount
  · exact hs.memo.count_of_mem_keep hcount

theorem forget (hs : s.Sound) : ({ s with memo := s.memo.forget } : Callers ι).Sound :=
  ⟨s.memo.sound_forget, hs.held, hs.replies, hs.emptied⟩

/-- No section disturbs the order. -/
theorem turn [DecidableEq ι] (hs : s.Sound) (t : Turn ι) : (s.turn t).Sound := by
  cases t with
  | look i text =>
    simp only [Callers.turn]
    split
    · exact hs
    · split
      · next rule hfind => exact hs.answer i (hs.memo.read_of_find? hfind).symm
      · split
        · next fault hread => exact hs.answer i hread.symm
        · next rule hread =>
          -- no answer yet: all that is new is the rule in the hands of `i`
          refine hs.update_held i ?_
          rintro text' rule' heq
          cases heq
          exact hread
  | keep i =>
    simp only [Callers.turn]
    split
    · exact hs
    · next text rule hheld =>
      -- what the look saw of the memo is forgotten by now, but not what it read
      have hread : Rule.read text = .ok rule := hs.held i text rule hheld
      refine ((hs.answer i hread.symm).keep hread).update_held i ?_
      rintro text' rule' heq
      cases heq
  | forget i =>
    simp only [Callers.turn]
    split
    · exact hs
    · exact hs.forget

theorem run [DecidableEq ι] (hs : s.Sound) (turns : List (Turn ι)) : (s.run turns).Sound := by
  induction turns generalizing s with
  | nil => exact hs
  | cons t turns ih => exact ih (hs.turn t)

end Sound

theorem limit_turn [DecidableEq ι] (s : Callers ι) (t : Turn ι) :
    (s.turn t).memo.limit = s.memo.limit := by
  cases t with
  | look i text =>
    simp only [turn, answer]
    split
    · rfl
    · split
      · rfl
      · split <;> rfl
  | keep i =>
    simp only [turn, answer]
    split
    · rfl
    · exact limit_keep ..
  | forget i =>
    simp only [turn]
    split
    · rfl
    · exact limit_forget s.memo

theorem limit_run [DecidableEq ι] (s : Callers ι) (turns : List (Turn ι)) :
    (s.run turns).memo.limit = s.memo.limit := by
  induction turns generalizing s with
  | nil => rfl
  | cons t turns ih =>
    show ((s.turn t).run turns).memo.limit = s.memo.limit
    rw [ih, limit_turn]

/-- **A shared memo is transparent and bounded, in whatever order its callers are served.** Every
rule in it is the rule of its text, so that no unreadable text is in it; no text is in it twice; it
never outgrows its limit; every answer is what reading gives; and it is emptied at its limit
only. -/
theorem run_transparent_bounded [DecidableEq ι] (capacity : Nat) (turns : List (Turn ι)) :
    let s := (start ι capacity).run turns
    (∀ entry ∈ s.memo.entries, Rule.read entry.1 = .ok entry.2) ∧
      (∀ text fault, Rule.read text = .error fault → s.memo.contains text = false) ∧
      s.memo.texts.Nodup ∧
      s.memo.size ≤ max capacity 1 ∧
      (∀ reply ∈ s.replies, reply.result = Rule.read reply.text) ∧
      ∀ count, .emptied count ∈ s.notices → count = max capacity 1 := by
  intro s
  have hs : s.Sound := (sound_start capacity).run turns
  have hlimit : s.memo.limit = max capacity 1 := by
    rw [limit_run]
    exact limit_empty capacity
  refine ⟨hs.memo.read_eq, fun text fault => hs.memo.contains_of_error, hs.memo.nodup, ?_,
    hs.replies, ?_⟩
  · rw [← hlimit]
    exact hs.memo.size_le
  · rw [← hlimit]
    exact hs.emptied

end Callers

end ScaleFactor.Memo
