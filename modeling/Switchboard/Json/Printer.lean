import Switchboard.Json.Basic

/-!
# Compact JSON text

No white space, members in their order, and in strings an escape only for the quote, the backslash
and the controls below U+0020.

- `Json.escape`: the written form of one character of a string.
- `Json.quote`: a string with its quotes.
- `Json.compact`: the text of a value.
-/

namespace Switchboard.Json

/-- The written form of one character of a string. -/
def escape (c : Char) : List Char :=
  if c == '"' then ['\\', '"']
  else if c == '\\' then ['\\', '\\']
  else if c == '\x08' then ['\\', 'b']
  else if c == '\x0c' then ['\\', 'f']
  else if c == '\n' then ['\\', 'n']
  else if c == '\r' then ['\\', 'r']
  else if c == '\t' then ['\\', 't']
  else if c.toNat < 0x20 then
    ['\\', 'u', '0', '0', Text.hexDigit (c.toNat / 16), Text.hexDigit (c.toNat % 16)]
  else [c]

def quote (s : String) : List Char := '"' :: s.toList.flatMap escape ++ ['"']

mutual

/-- The compact text of a value. -/
def compact : Json → List Char
  | null => ['n', 'u', 'l', 'l']
  | bool true => ['t', 'r', 'u', 'e']
  | bool false => ['f', 'a', 'l', 's', 'e']
  | int n => (toString n).toList
  | real x => x.text.toList
  | str s => quote s
  | arr items => '[' :: compactItems items
  | obj members => '\x7b' :: compactMembers members

/-- The items of an array with the bracket that closes it. -/
def compactItems : List Json → List Char
  | [] => [']']
  | [j] => compact j ++ [']']
  | j :: rest => compact j ++ ',' :: compactItems rest

/-- The members of an object with the brace that closes it. -/
def compactMembers : List (String × Json) → List Char
  | [] => ['\x7d']
  | [(k, j)] => quote k ++ ':' :: compact j ++ ['\x7d']
  | (k, j) :: rest => quote k ++ ':' :: compact j ++ ',' :: compactMembers rest

end

/-- The compact text of a value as a string. -/
def text (j : Json) : String := String.ofList j.compact

end Switchboard.Json
