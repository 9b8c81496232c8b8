import ScaleFactor.Proofs.RuleSet.Answer
import ScaleFactor.Proofs.Totals.Parts

/-!
# Rule sets one after the other

A pass through two rule sets, one after the other, keeps what passes through the parts keep and warns
of what they warn of, in this order (`kept_append`, `faults_append`), whatever the memo knows at the
start of each of the three passes. From there on the totals of parts say the rest. The first result
is that of the first part and the last one that of the second, unless that part kept nothing; then
it takes no part in the answer either, least of all with the zero that it would answer itself.
-/

namespace ScaleFactor

namespace RuleSet

instance : Append RuleSet := ⟨fun s t => ⟨s.rules ++ t.rules⟩⟩

/-! ## The plain meaning of the parts -/

theorem kept_append (s t : RuleSet) (x : Binary64) (only : Filter) :
    (s ++ t).kept x only = s.kept x only ++ t.kept x only := by
  show ((((s.rules ++ t.rules).filterMap Rule.read?).map (·.outcome x)).filter _) = _
  rw [List.filterMap_append, List.map_append, List.filter_append]
  rfl

theorem faults_append (s t : RuleSet) : (s ++ t).faults = s.faults ++ t.faults :=
  List.filterMap_append

/-! ## The passes -/

/-- **Two rule sets after each other are combined as their parts are.** Each of the three passes may
find the memo in another state. Results and warnings follow each other; the first match of the second
part is one more overlap if the first part has a match too; the first and the last result are those
of the outer parts that have any; of two parts with results the greater maximum and the lesser
minimum prevail; and beside a part without results the other one answers as the whole does, whatever
the strategy. -/
theorem combine_append (s t : RuleSet) (x : Binary64) (only : Filter) (capacity : Nat)
    (requests₁ requests₂ requests₁₂ : List Memo.Request) (words : List UInt64) :
    let pass (part : RuleSet) (requests : List Memo.Request) :=
      part.pass x only ((Memo.empty capacity).after requests)
    let answer (part : RuleSet) (requests : List Memo.Request) (strategy : Strategy) :=
      (part.combine x ⟨strategy, only⟩ ((Memo.empty capacity).after requests) words).answer
    let pass₁ := pass s requests₁
    let pass₂ := pass t requests₂
    let pass₁₂ := pass (s ++ t) requests₁₂
    let answer₁ := answer s requests₁
    let answer₂ := answer t requests₂
    let answer₁₂ := answer (s ++ t) requests₁₂
    pass₁₂.totals.values = pass₁.totals.values ++ pass₂.totals.values ∧
      pass₁₂.notices.filter Notice.isWarning =
        pass₁.notices.filter Notice.isWarning ++ pass₂.notices.filter Notice.isWarning ∧
      pass₁₂.totals.overlaps = pass₁.totals.overlaps + pass₂.totals.overlaps +
        (if (s.kept x only).any (·.matched) ∧ (t.kept x only).any (·.matched) then 1 else 0) ∧
      (pass₁.totals.isEmpty = false → answer₁₂ .first = answer₁ .first) ∧
      (pass₂.totals.isEmpty = false → answer₁₂ .last = answer₂ .last) ∧
      (pass₁.totals.isEmpty = false → pass₂.totals.isEmpty = false →
        Answer.Prevails (fun x y => x.le y) (answer₁ .maximum) (answer₂ .maximum)
            (answer₁₂ .maximum) ∧
          Answer.Prevails (fun x y => y.le x) (answer₁ .minimum) (answer₂ .minimum)
            (answer₁₂ .minimum)) ∧
      (pass₁.totals.isEmpty = true → ∀ strategy, answer₁₂ strategy = answer₂ strategy) ∧
      (pass₂.totals.isEmpty = true → ∀ strategy, answer₁₂ strategy = answer₁ strategy) := by
  intro pass answer pass₁ pass₂ pass₁₂ answer₁ answer₂ answer₁₂
  have hmemo (requests : List Memo.Request) : ((Memo.empty capacity).after requests).Sound :=
    Memo.sound_after_empty capacity requests
  have htotals (part : RuleSet) (requests : List Memo.Request) :
      (pass part requests).totals = Totals.summary (part.kept x only) :=
    totals_pass_eq_summary (hmemo requests) part x only
  have hwarnings (part : RuleSet) (requests : List Memo.Request) :
      (pass part requests).notices.filter Notice.isWarning =
        part.faults.map fun f => .skipped f.1 f.2 :=
    warnings_pass (hmemo requests) part x only
  have hanswer (part : RuleSet) (requests : List Memo.Request) (strategy : Strategy) :
      answer part requests strategy =
        (Totals.summary (part.kept x only)).answer strategy words :=
    answer_combine (hmemo requests) part x ⟨strategy, only⟩ words
  clear_value pass answer
  simp only [pass₁, pass₂, pass₁₂, answer₁, answer₂, answer₁₂, htotals, hwarnings, hanswer,
    kept_append, faults_append, Totals.isEmpty_summary, List.isEmpty_eq_false_iff]
  refine ⟨?_, List.map_append, Totals.overlaps_append _ _, ?_, ?_, ?_, ?_, ?_⟩
  · simp only [Totals.summary, List.map_append, List.append_toArray]
  · intro hs
    exact Totals.answer_first_append hs _ words
  · intro ht
    exact Totals.answer_last_append _ ht words
  · intro hs ht
    exact ⟨Totals.prevails_answer_maximum hs ht (.append _ _) words,
      Totals.prevails_answer_minimum hs ht (.append _ _) words⟩
  · intro hs strategy
    rw [List.isEmpty_iff.1 hs, List.nil_append]
  · intro ht strategy
    rw [List.isEmpty_iff.1 ht, List.append_nil]

end RuleSet

end ScaleFactor
