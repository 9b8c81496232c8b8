import ScaleFactor.Json.Text

/-!
# Writing JSON text

The compact form: no blanks, members in the order given.
-/

namespace ScaleFactor.Json

/-- Puts commas between the items. -/
def separated : List (List Char) → List Char
  | [] => []
  | [item] => item
  | item :: items => item ++ ',' :: separated items

/-- Writes a list of texts. -/
def writeTextList (texts : List (List Char)) : List Char :=
  '[' :: separated (texts.map writeString) ++ [']']

/-- Writes an object whose members are texts. -/
def writeTextObject (members : List (List Char × List Char)) : List Char :=
  '{' :: separated (members.map fun m => writeString m.1 ++ ':' :: writeString m.2) ++ ['}']

end ScaleFactor.Json
