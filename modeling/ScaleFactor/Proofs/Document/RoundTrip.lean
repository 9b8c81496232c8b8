import ScaleFactor.Document.Rules
import ScaleFactor.Proofs.Json.Written

/-!
# Rules to JSON text and back

A rule set is written as a list of strings and a rule as a string, whatever characters they hold, and
reading gives back what was written (`RuleSet.ofJson_toJson`, `Rule.textOfJson_textToJson`). Nothing
is asked of the texts: they need not be rules.

A text that is read may have been written in another way, with blanks or with other escapes. Written
again it has its compact form, which means the same.
-/

namespace ScaleFactor

theorem ofList_map_toList (rules : List String) :
    (rules.map String.toList).map String.ofList = rules := by
  rw [List.map_map]
  exact List.map_id'' (fun _ => String.ofList_toList) rules

theorem Rule.textOfJson_textToJson (rule : String) :
    Rule.textOfJson (Rule.textToJson rule) = .ok rule := by
  have hread := Json.readText_writeString rule.toList []
  rw [List.append_nil] at hread
  rw [Rule.textOfJson, Rule.textToJson, Json.readDocument_of_read hread]
  show Except.ok (String.ofList rule.toList) = _
  rw [String.ofList_toList]

theorem RuleSet.ofJson_toJson (s : RuleSet) : RuleSet.ofJson s.toJson = .ok s := by
  have hread := Json.readTextList_writeTextList (s.rules.map String.toList) []
  rw [List.append_nil] at hread
  rw [RuleSet.ofJson, RuleSet.toJson, Json.readDocument_of_read hread]
  show Except.ok (RuleSet.mk ((s.rules.map String.toList).map String.ofList)) = _
  rw [ofList_map_toList]

/-- **Reading undoes writing.** Every rule set, written and read again, is the same texts in the same
order, and every rule is the same text. And what was read from any text at all, written and read
again, is the same rule set or rule, written in the same way. -/
theorem RuleSet.read_written_again :
    (∀ s : RuleSet, RuleSet.ofJson s.toJson = .ok s) ∧
      (∀ rule : String, Rule.textOfJson (Rule.textToJson rule) = .ok rule) ∧
      (∀ (text : String) (s : RuleSet), RuleSet.ofJson text = .ok s →
        ∃ t, RuleSet.ofJson s.toJson = .ok t ∧ t = s ∧ t.toJson = s.toJson) ∧
      (∀ (text rule : String), Rule.textOfJson text = .ok rule →
        ∃ other, Rule.textOfJson (Rule.textToJson rule) = .ok other ∧ other = rule ∧
          Rule.textToJson other = Rule.textToJson rule) := by
  refine ⟨RuleSet.ofJson_toJson, Rule.textOfJson_textToJson, ?_, ?_⟩
  · intro _ s _
    exact ⟨s, RuleSet.ofJson_toJson s, rfl, rfl⟩
  · intro _ rule _
    exact ⟨rule, Rule.textOfJson_textToJson rule, rfl, rfl⟩

end ScaleFactor
