import ScaleFactor.Proofs.Memo.Sound
import ScaleFactor.RuleSet

/-!
# The plain meaning of a pass

A pass fetches its rules through a memo, which may know some of them, may learn others on the way
and may be emptied between any two of them. What the pass comes to has nothing to do with that: read
every text anew, leave out those that are no rules, apply the others to the value, keep what the
filter keeps and take it in, in order. `RuleSet.kept` is that list of outcomes and `RuleSet.faults`
the list of what was left out.

The two results of a pass, its totals and its warnings, are followed side by side through the rules,
each from what one step does to it (`Pass.step_cases`). All that is needed of the memo is that it
is sound, and every step leaves it so.
-/

namespace ScaleFactor

/-! ## Reading without a memo -/

/-- The rule of a text, if the text is one. -/
def Rule.read? (text : String) : Option Rule := (Rule.read text).toOption

/-- The fault of a text, with the text, if it is no rule. -/
def Rule.fault? (text : String) : Option (String × Rule.Fault) :=
  match Rule.read text with
  | .ok _ => none
  | .error fault => some (text, fault)

theorem Rule.read?_of_ok {text : String} {rule : Rule} (h : Rule.read text = .ok rule) :
    Rule.read? text = some rule := by
  rw [Rule.read?, h]
  rfl

theorem Rule.read?_of_error {text : String} {fault : Rule.Fault}
    (h : Rule.read text = .error fault) : Rule.read? text = none := by
  rw [Rule.read?, h]
  rfl

theorem Rule.fault?_of_ok {text : String} {rule : Rule} (h : Rule.read text = .ok rule) :
    Rule.fault? text = none := by
  rw [Rule.fault?, h]

theorem Rule.fault?_of_error {text : String} {fault : Rule.Fault}
    (h : Rule.read text = .error fault) : Rule.fault? text = some (text, fault) := by
  rw [Rule.fault?, h]

namespace RuleSet

/-- The rules that can be read. -/
def readable (s : RuleSet) : List Rule := s.rules.filterMap Rule.read?

/-- What is wrong with the texts that are no rules. -/
def faults (s : RuleSet) : List (String × Rule.Fault) := s.rules.filterMap Rule.fault?

/-- The outcomes of the rules on a value. -/
def outcomes (s : RuleSet) (x : Binary64) : List Outcome := s.readable.map (·.outcome x)

/-- The outcomes that the filter keeps. -/
def kept (s : RuleSet) (x : Binary64) (only : Filter) : List Outcome :=
  (s.outcomes x).filter (only.keeps ·.matched)

section Cons

variable {text : String} {rule : Rule} {fault : Rule.Fault} (texts : List String) (x : Binary64)
  (only : Filter)

theorem outcomes_cons_of_ok (h : Rule.read text = .ok rule) :
    outcomes ⟨text :: texts⟩ x = rule.outcome x :: outcomes ⟨texts⟩ x := by
  have hread := Rule.read?_of_ok h
  simp only [outcomes, readable, List.filterMap_cons, hread, List.map_cons]

theorem kept_cons_of_ok (h : Rule.read text = .ok rule) :
    kept ⟨text :: texts⟩ x only =
      if only.keeps (rule.outcome x).matched then rule.outcome x :: kept ⟨texts⟩ x only
        else kept ⟨texts⟩ x only := by
  rw [kept, outcomes_cons_of_ok texts x h, List.filter_cons]
  rfl

/-- Of one rule there is one outcome, which is kept or not. -/
theorem kept_singleton (h : Rule.read text = .ok rule) : kept ⟨[text]⟩ x only =
    if only.keeps (rule.outcome x).matched then [rule.outcome x] else [] :=
  kept_cons_of_ok [] x only h

theorem kept_cons_of_error (h : Rule.read text = .error fault) :
    kept ⟨text :: texts⟩ x only = kept ⟨texts⟩ x only := by
  have hread := Rule.read?_of_error h
  simp only [kept, outcomes, readable, List.filterMap_cons, hread]

theorem faults_cons_of_ok (h : Rule.read text = .ok rule) :
    faults ⟨text :: texts⟩ = faults ⟨texts⟩ := by
  have hfault := Rule.fault?_of_ok h
  simp only [faults, List.filterMap_cons, hfault]

theorem faults_cons_of_error (h : Rule.read text = .error fault) :
    faults ⟨text :: texts⟩ = (text, fault) :: faults ⟨texts⟩ := by
  have hfault := Rule.fault?_of_error h
  simp only [faults, List.filterMap_cons, hfault]

end Cons

/-- The set without the texts that are no rules. -/
def withoutFaults (s : RuleSet) : RuleSet := ⟨s.rules.filter fun text => (Rule.read? text).isSome⟩

theorem readable_withoutFaults (s : RuleSet) : s.withoutFaults.readable = s.readable := by
  obtain ⟨rules⟩ := s
  simp only [withoutFaults, readable]
  induction rules with
  | nil => rfl
  | cons text rules ih =>
    cases hread : Rule.read? text with
    | none => simpa [List.filter_cons, List.filterMap_cons, hread] using ih
    | some rule => simpa [List.filter_cons, List.filterMap_cons, hread] using ih

theorem kept_withoutFaults (s : RuleSet) (x : Binary64) (only : Filter) :
    s.withoutFaults.kept x only = s.kept x only := by
  rw [kept, kept, outcomes, outcomes, readable_withoutFaults]

end RuleSet

/-! ## One step -/

namespace Pass

variable {x : Binary64} {only : Filter} {p : Pass}

@[simp] theorem memo_step (x : Binary64) (only : Filter) (p : Pass) (text : String) :
    (p.step x only text).memo = p.memo.serve (.evaluate text x) := by
  simp only [step]
  split <;> rfl

/-- With a sound memo a rule comes in under the filter, and a text that is no rule is reported and
comes in not at all. -/
theorem step_cases (hm : p.memo.Sound) (text : String) :
    (∃ rule, Rule.read text = .ok rule ∧
        (p.step x only text).totals =
          (if only.keeps (rule.outcome x).matched then p.totals.push (rule.outcome x)
            else p.totals) ∧
        (p.step x only text).notices = p.notices ++ (p.memo.fetch text).notices) ∨
      (∃ fault, Rule.read text = .error fault ∧
        (p.step x only text).totals = p.totals ∧
        (p.step x only text).notices =
          p.notices ++ (p.memo.fetch text).notices ++ [.skipped text fault]) := by
  have hresult := hm.evaluate_result text x
  cases hread : Rule.read text with
  | ok rule =>
    replace hresult : (p.memo.evaluate text x).result = .ok (rule.outcome x) := by
      rw [hresult, hread]
      rfl
    refine Or.inl ⟨rule, rfl, ?_, ?_⟩
    · simp only [step, hresult]
    · simp only [step, hresult]
      rfl
  | error fault =>
    replace hresult : (p.memo.evaluate text x).result = .error fault := by
      rw [hresult, hread]
      rfl
    refine Or.inr ⟨fault, rfl, ?_, ?_⟩
    · simp only [step, hresult]
    · simp only [step, hresult]
      rfl

theorem sound_step (hm : p.memo.Sound) (text : String) : (p.step x only text).memo.Sound := by
  rw [memo_step]
  exact hm.serve _

/-! ## All steps -/

theorem memo_foldl (x : Binary64) (only : Filter) (p : Pass) (texts : List String) :
    (texts.foldl (step x only) p).memo = p.memo.after (texts.map (.evaluate · x)) := by
  induction texts generalizing p with
  | nil => rfl
  | cons text texts ih =>
    rw [List.foldl_cons, ih, memo_step]
    rfl

theorem totals_foldl (hm : p.memo.Sound) (texts : List String) :
    (texts.foldl (step x only) p).totals = p.totals.extend (RuleSet.kept ⟨texts⟩ x only) := by
  induction texts generalizing p with
  | nil => rfl
  | cons text texts ih =>
    rw [List.foldl_cons, ih (sound_step hm text)]
    -- the memo may be a different one after every step, but it is sound again, and no more is
    -- asked of it
    rcases step_cases hm text with ⟨rule, hread, htotals, -⟩ | ⟨fault, hread, htotals, -⟩
    · rw [htotals, RuleSet.kept_cons_of_ok texts x only hread]
      split
      · rfl
      · rfl
    · rw [htotals, RuleSet.kept_cons_of_error texts x only hread]

theorem warnings_foldl (hm : p.memo.Sound) (texts : List String) :
    (texts.foldl (step x only) p).notices.filter Notice.isWarning =
      p.notices.filter Notice.isWarning ++
        (RuleSet.faults ⟨texts⟩).map fun f => .skipped f.1 f.2 := by
  induction texts generalizing p with
  | nil => simp [RuleSet.faults]
  | cons text texts ih =>
    rw [List.foldl_cons, ih (sound_step hm text)]
    rcases step_cases hm text with ⟨rule, hread, -, hnotices⟩ | ⟨fault, hread, -, hnotices⟩
    · rw [hnotices, List.filter_append, Memo.filter_isWarning_fetch, List.append_nil,
        RuleSet.faults_cons_of_ok texts hread]
    · have hwarning : [Notice.skipped text fault].filter Notice.isWarning =
          [.skipped text fault] := rfl
      rw [hnotices, List.filter_append, List.filter_append, Memo.filter_isWarning_fetch,
        List.append_nil, hwarning, List.append_assoc, RuleSet.faults_cons_of_error texts hread]
      rfl

end Pass

/-! ## The pass -/

namespace RuleSet

theorem totals_pass {memo : Memo} (hm : memo.Sound) (s : RuleSet) (x : Binary64) (only : Filter) :
    (s.pass x only memo).totals = Totals.ofOutcomes (s.kept x only) :=
  Pass.totals_foldl hm s.rules

theorem warnings_pass {memo : Memo} (hm : memo.Sound) (s : RuleSet) (x : Binary64)
    (only : Filter) : (s.pass x only memo).notices.filter Notice.isWarning =
      s.faults.map fun f => .skipped f.1 f.2 :=
  Pass.warnings_foldl hm s.rules

theorem memo_pass (memo : Memo) (s : RuleSet) (x : Binary64) (only : Filter) :
    (s.pass x only memo).memo = memo.after (s.rules.map (.evaluate · x)) :=
  Pass.memo_foldl x only _ s.rules

/-- **A pass through a memo comes to what a pass without one comes to.** Whatever was asked of the
memo before, the totals are those of the outcomes that the filter keeps, each text read anew, and
the warnings are one for each text that is no rule, in order, whatever the value and the settings.
The memo is left as after so many requests, so that the same holds of the next pass. Texts that are
no rules can be taken out of the set without a trace in the totals. -/
theorem pass_eq_plain (s : RuleSet) (x : Binary64) (c : Settings) (capacity : Nat)
    (requests : List Memo.Request) :
    let p := s.pass x c.only ((Memo.empty capacity).after requests)
    p.totals = Totals.ofOutcomes (s.kept x c.only) ∧
      p.notices.filter Notice.isWarning = (s.faults.map fun f => .skipped f.1 f.2) ∧
      (p.notices.filter Notice.isWarning).map Notice.message =
        (s.faults.map fun f => "error in scale rule lib: " ++ f.2.message) ∧
      p.memo = (Memo.empty capacity).after (requests ++ s.rules.map (.evaluate · x)) ∧
      ∀ others, (s.withoutFaults.pass x c.only ((Memo.empty capacity).after others)).totals =
        p.totals := by
  intro p
  have hsound (requests : List Memo.Request) : ((Memo.empty capacity).after requests).Sound :=
    (Memo.sound_empty capacity).after requests
  have hwarnings := s.warnings_pass (hsound requests) x c.only
  refine ⟨s.totals_pass (hsound requests) x c.only, hwarnings, ?_, ?_, ?_⟩
  · rw [hwarnings, List.map_map]
    rfl
  · rw [Memo.after_append]
    exact memo_pass _ s x c.only
  · intro others
    rw [totals_pass (hsound others), totals_pass (hsound requests), kept_withoutFaults]

end RuleSet

end ScaleFactor
