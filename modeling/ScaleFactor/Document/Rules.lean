import ScaleFactor.Json.Reader
import ScaleFactor.Json.Writer
import ScaleFactor.RuleSet

/-!
# Rules as JSON text

A rule is a text and a rule set a list of texts. Whether the texts are rules is not looked at.
-/

namespace ScaleFactor

/-- Reads the text of one rule. -/
def Rule.textOfJson (text : String) : Except Json.Error String :=
  (Json.readDocument Json.readText text).map String.ofList

/-- Writes the text of one rule. -/
def Rule.textToJson (rule : String) : String := String.ofList (Json.writeString rule.toList)

def RuleSet.ofJson (text : String) : Except Json.Error RuleSet :=
  (Json.readDocument Json.readTextList text).map fun rules => ⟨rules.map String.ofList⟩

def RuleSet.toJson (s : RuleSet) : String :=
  String.ofList (Json.writeTextList (s.rules.map String.toList))

end ScaleFactor
