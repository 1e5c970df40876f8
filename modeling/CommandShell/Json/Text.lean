import CommandShell.Json.Basic
import CommandShell.Decimal.Notation
/-!
# The text of a JSON value

`Json.compact` writes a value without blanks, `Json.pretty` over several lines with two spaces
for each level.  Both write strings and numbers alike; only a container with something in it
looks different.
-/

namespace CommandShell.Json

open CommandShell.Text CommandShell.Decimal

/-- One hexadecimal digit in small letters. -/
def hexDigit (n : Nat) : Char := Nat.digitChar n

/-- How a character stands in a string: quote marks, backslashes and control characters are
escaped, other characters stand for themselves. -/
def escape (c : Char) : List Char :=
  if c = '"' then ['\\', '"']
  else if c = '\\' then ['\\', '\\']
  else if c = '\x08' then ['\\', 'b']
  else if c = '\x0c' then ['\\', 'f']
  else if c = '\n' then ['\\', 'n']
  else if c = '\r' then ['\\', 'r']
  else if c = '\t' then ['\\', 't']
  else if c.toNat < 32 then ['\\', 'u', '0', '0', hexDigit (c.toNat / 16), hexDigit (c.toNat % 16)]
  else [c]

/-- A string in its quote marks. -/
def quoted (s : String) : List Char := '"' :: s.toList.flatMap escape ++ ['"']

/-- The text of a whole number. -/
def integerText (n : Int) : List Char := (intText n).toList

/-- The text of a float; one that is not finite has none and is written as null. -/
def floatText (x : Float) : List Char :=
  if x.isFinite then Style.signed.write x else ['n', 'u', 'l', 'l']

/-- The text of a value that holds no other values. -/
def atomText : Json → List Char
  | bool true => ['t', 'r', 'u', 'e']
  | bool false => ['f', 'a', 'l', 's', 'e']
  | integer n => integerText n
  | float x => floatText x
  | string s => quoted s
  | _ => ['n', 'u', 'l', 'l']

mutual

/-- The text of a value without blanks. -/
def compactText : Json → List Char
  | array [] => ['[', ']']
  | array (a :: as) => '[' :: compactText a ++ compactItems as ++ [']']
  | fields [] => ['{', '}']
  | fields ((k, v) :: rest) =>
    '{' :: quoted k ++ ':' :: compactText v ++ compactFields rest ++ ['}']
  | v => atomText v

/-- The further items of an array, each behind a comma. -/
def compactItems : List Json → List Char
  | [] => []
  | a :: as => ',' :: compactText a ++ compactItems as

/-- The further fields of an object, each behind a comma. -/
def compactFields : List (String × Json) → List Char
  | [] => []
  | (k, v) :: rest => ',' :: quoted k ++ ':' :: compactText v ++ compactFields rest

end

/-- A line break and the spaces of a level. -/
def newline (level : Nat) : List Char := '\n' :: List.replicate (2 * level) ' '

mutual

/-- The text of a value over several lines, of which the first is indented already. -/
def prettyText (level : Nat) : Json → List Char
  | array [] => ['[', ']']
  | array (a :: as) =>
    '[' :: newline (level + 1) ++ prettyText (level + 1) a ++ prettyItems (level + 1) as ++
      newline level ++ [']']
  | fields [] => ['{', '}']
  | fields ((k, v) :: rest) =>
    '{' :: newline (level + 1) ++ quoted k ++ ':' :: ' ' :: prettyText (level + 1) v ++
      prettyFields (level + 1) rest ++ newline level ++ ['}']
  | v => atomText v

/-- The further items of an array, each on a line of its own. -/
def prettyItems (level : Nat) : List Json → List Char
  | [] => []
  | a :: as => ',' :: newline level ++ prettyText level a ++ prettyItems level as

/-- The further fields of an object, each on a line of its own. -/
def prettyFields (level : Nat) : List (String × Json) → List Char
  | [] => []
  | (k, v) :: rest =>
    ',' :: newline level ++ quoted k ++ ':' :: ' ' :: prettyText level v ++ prettyFields level rest

end

/-- The text of a value without blanks. -/
def compact (v : Json) : String := String.ofList (compactText v)

/-- The text of a value over several lines. -/
def pretty (v : Json) : String := String.ofList (prettyText 0 v)

end CommandShell.Json
