import Prose.Text.Basic
import Prose.Text.Invisible

/-!
Texts in quotation marks, with escapes for the quotation mark itself, the backslash, and
characters that do not show.
-/

namespace Prose.Text

/-- A number in hexadecimal with small letters. -/
def hex (n : Nat) : List Char := Nat.toDigits 16 n

/-- A character inside a quoted text. -/
def escape (c : Char) : List Char :=
  if c = '"' then ['\\', '"']
  else if c = '\\' then ['\\', '\\']
  else if c = '\n' then ['\\', 'n']
  else if c = '\t' then ['\\', 't']
  else if c = '\r' then ['\\', 'r']
  else if c.toNat = 0 then ['\\', '0']
  else if ' ' ≤ c && c ≤ '~' then [c]
  else if isInvisible c then "\\u\x7b".toList ++ hex c.toNat ++ "\x7d".toList
  else [c]

/-- A text in quotation marks. -/
def quote (s : String) : String :=
  String.ofList ('"' :: (s.toList.flatMap escape ++ ['"']))

end Prose.Text
