import ScaleFactor.Text.Unprintable
import ScaleFactor.Text.Combining
import ScaleFactor.Text.Ignorable

/-!
# Quoted text

A text inside a message is put between double quotes. The quote, the backslash, the tab, the two
line ends and NUL are written as a backslash and one letter; every other character that is
unprintable, ignorable or combining is written by its code point, in lower-case hexadecimal digits
between braces; the rest stands for itself.
-/

namespace ScaleFactor.Text

/-- The code point between braces, without leading zeros. -/
def codePoint (c : Char) : List Char := ['\\', 'u', '{'] ++ Nat.toDigits 16 c.toNat ++ ['}']

/-- How a character is written inside quotes. -/
def quotedChar (c : Char) : List Char :=
  if c = '"' then ['\\', '"']
  else if c = '\\' then ['\\', '\\']
  else if c = '\t' then ['\\', 't']
  else if c = '\n' then ['\\', 'n']
  else if c = '\r' then ['\\', 'r']
  else if c = '\x00' then ['\\', '0']
  else if ' ' ≤ c ∧ c ≤ '~' then [c]
  else if isCombining c || isIgnorable c || isUnprintable c then codePoint c
  else [c]

/-- The text between double quotes. -/
def quoted (s : String) : String := String.ofList ('"' :: s.toList.flatMap quotedChar ++ ['"'])

end ScaleFactor.Text
