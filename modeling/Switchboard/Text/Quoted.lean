import Switchboard.Text.Ascii
import Switchboard.Text.Printable

/-!
# Quoted text

How a text appears inside messages and descriptions: between double quotes, with an escape for
every character that would not stand for itself there.

- `escape`: the written form of one character.
- `quoted`: the whole text between quotes.
-/

namespace Switchboard.Text

/-- The written form of one character. The single quote stands for itself. -/
def escape (c : Char) : List Char :=
  if c == '"' || c == '\\' then ['\\', c]
  else if c == '\n' then ['\\', 'n']
  else if c == '\r' then ['\\', 'r']
  else if c == '\t' then ['\\', 't']
  else if c == '\x00' then ['\\', '0']
  else if isPrintable c then [c]
  else ['\\', 'u', '\x7b'] ++ hex c.toNat ++ ['\x7d']

def quoted (s : String) : String :=
  String.ofList ('"' :: s.toList.flatMap escape ++ ['"'])

/-- A list in brackets, its items separated by a comma and a space. -/
def bracketed (items : List String) : String :=
  "[" ++ String.intercalate ", " items ++ "]"

/-- The entries of a map in braces, each a quoted key, a colon and the value. -/
def braced (entries : List (String × String)) : String :=
  "\x7b" ++ String.intercalate ", " (entries.map fun e => quoted e.1 ++ ": " ++ e.2) ++ "\x7d"

end Switchboard.Text
