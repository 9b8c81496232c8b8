import ScaleFactor.Binary64.Shortest
import ScaleFactor.Text.Quoted

/-!
# Faults of JSON texts

A reader that stops at a fault tells what is wrong and how much of the text was unread at that
point, counted in bytes. `Error` turns that into a line and a column of the whole text: lines count
from one, and the column is the number of bytes since the last line feed.
-/

namespace ScaleFactor.Json

/-- A value that stands where another kind of value is expected. -/
inductive Found where
  | null
  | boolean (b : Bool)
  | integer (n : Int)
  | float (x : Binary64)
  | text (s : String)
  | list
  | object
  deriving DecidableEq, Repr

/-- Numbers in messages have no exponent from `10 ^ -5` up to below `10 ^ 16`. -/
def numberLayout : Binary64.Layout := ⟨-5, 15⟩

def Found.message : Found → String
  | null => "null"
  | boolean b => "boolean `" ++ toString b ++ "`"
  | integer n => "integer `" ++ toString n ++ "`"
  | float x => "floating point `" ++ String.ofList (numberLayout.text x) ++ "`"
  | text s => "string " ++ Text.quoted s
  | list => "sequence"
  | object => "map"

/-- What is wrong with a text. -/
inductive Problem where
  | endInValue
  | endInString
  | endInList
  | endInObject
  | expectedColon
  | expectedCommaOrBracket
  | expectedCommaOrBrace
  | expectedWord
  | expectedValue
  | invalidEscape
  | invalidNumber
  | numberOutOfRange
  | controlCharacter
  | keyNotString
  | loneSurrogate
  | unfinishedSurrogate
  | trailingComma
  | trailingCharacters
  | wrongType (found : Found) (expected : String)
  | unknownName (name : String) (known : List String)
  | repeatedMember (name : String)
  deriving DecidableEq, Repr

/-- The names, each in backquotes, as alternatives. -/
def alternatives : List String → String
  | [a] => "`" ++ a ++ "`"
  | [a, b] => "`" ++ a ++ "` or `" ++ b ++ "`"
  | names => "one of " ++ String.intercalate ", " (names.map fun a => "`" ++ a ++ "`")

def Problem.message : Problem → String
  | endInValue => "EOF while parsing a value"
  | endInString => "EOF while parsing a string"
  | endInList => "EOF while parsing a list"
  | endInObject => "EOF while parsing an object"
  | expectedColon => "expected `:`"
  | expectedCommaOrBracket => "expected `,` or `]`"
  | expectedCommaOrBrace => "expected `,` or `\x7d`"
  | expectedWord => "expected ident"
  | expectedValue => "expected value"
  | invalidEscape => "invalid escape"
  | invalidNumber => "invalid number"
  | numberOutOfRange => "number out of range"
  | controlCharacter => "control character (\\u0000-\\u001F) found while parsing a string"
  | keyNotString => "key must be a string"
  | loneSurrogate => "lone leading surrogate in hex escape"
  | unfinishedSurrogate => "unexpected end of hex escape"
  | trailingComma => "trailing comma"
  | trailingCharacters => "trailing characters"
  | wrongType found expected => "invalid type: " ++ found.message ++ ", expected " ++ expected
  | unknownName name known =>
    "unknown variant `" ++ name ++ "`, expected " ++ alternatives known
  | repeatedMember name => "duplicate field `" ++ name ++ "`"

/-- The number of bytes of a text. -/
def byteSize (cs : List Char) : Nat := cs.foldr (fun c n => c.utf8Size + n) 0

/-- A problem with the number of bytes unread where it shows. -/
structure Fault where
  problem : Problem
  unread : Nat
  deriving DecidableEq, Repr

/-- A fault right before `rest`. -/
def Fault.before (problem : Problem) (rest : List Char) : Fault := ⟨problem, byteSize rest⟩

/-- A fault behind the first byte of `rest`, or at the end if there is none. -/
def Fault.within (problem : Problem) (rest : List Char) : Fault := ⟨problem, byteSize rest - 1⟩

/-- The result of reading from the head of a text, with what is left of it. -/
abbrev Reading (α : Type) := Except Fault (α × List Char)

/-! ### Positions -/

/-- A line and a column. -/
structure Position where
  line : Nat
  column : Nat
  deriving DecidableEq, Repr

/-- The position a number of bytes further on. -/
def Position.advance (p : Position) : List Char → Nat → Position
  | [], _ => p
  | c :: cs, n =>
    if n = 0 then p
    else if c = '\n' then advance ⟨p.line + 1, 0⟩ cs (n - 1)
    else if n < c.utf8Size then ⟨p.line, p.column + n⟩
    else advance ⟨p.line, p.column + c.utf8Size⟩ cs (n - c.utf8Size)

/-- What is wrong with a text and where. -/
structure Error where
  problem : Problem
  position : Position
  deriving DecidableEq, Repr

/-- Finds the place of a fault in the whole text. -/
def Fault.locate (f : Fault) (whole : List Char) : Error :=
  ⟨f.problem, Position.advance ⟨1, 0⟩ whole (byteSize whole - f.unread)⟩

def Error.message (e : Error) : String :=
  e.problem.message ++ " at line " ++ toString e.position.line ++ " column " ++
    toString e.position.column

end ScaleFactor.Json
