import CommandShell.Literal.Bracket
/-!
# Items of a collection literal

The text between the brackets of a literal is a list of items with commas between them; an entry
of a map is a key and a value with a colon between them.  A separator counts at the top level
only: outside quotes, escapes and brackets.

    joining the parts of splitTop mark s with mark gives s           (splitTop)
-/

namespace CommandShell.Literal

open CommandShell.Text CommandShell.Line

/-- The parts of the rest of a text; `part` holds the characters of the current part, last first. -/
def splitTopFrom (mark : Char) (mode : Mode) (depth : Nat) (part : List Char) :
    List Char → List (List Char)
  | [] => [part.reverse]
  | c :: rest =>
    if mode.bare then
      if (Bracket.ofOpening? c).isSome then
        splitTopFrom mark (mode.advance c) (depth + 1) (c :: part) rest
      else if isClosing c then
        splitTopFrom mark (mode.advance c) (depth - 1) (c :: part) rest
      else if c = mark ∧ depth = 0 then
        part.reverse :: splitTopFrom mark (mode.advance c) depth [] rest
      else splitTopFrom mark (mode.advance c) depth (c :: part) rest
    else splitTopFrom mark (mode.advance c) depth (c :: part) rest

/-- The parts of a text between its top-level `mark`s. -/
def splitTop (mark : Char) (s : List Char) : List (List Char) := splitTopFrom mark .start 0 [] s

/-- The items of a literal, trimmed and without their quoting; a blank literal has none. -/
def items (inner : List Char) : List (List Char) :=
  if (trim inner).isEmpty then [] else (splitTop ',' inner).map fun part => unquote (trim part)

/-- Cuts an entry at its first top-level colon, untrimmed. -/
def cutEntry (entry : List Char) : Option (List Char × List Char) :=
  match splitTop ':' entry with
  | [] => none
  | [_] => none
  | key :: _ => some (key, entry.drop (key.length + 1))

/-- The key and the value of an entry, trimmed and without their quoting. -/
def entry? (entry : List Char) : Option (List Char × List Char) :=
  (cutEntry entry).map fun (key, value) => (unquote (trim key), unquote (trim value))

end CommandShell.Literal
