import CommandShell.Line.Word
/-!
# Bracketed spans

A collection literal is written in square, round or curly brackets.  `spans` finds the bracketed
pieces of a line that stand at its top level; `unwrap` takes the brackets off a text that is
wrapped in one pair.

Any opening bracket goes one level down and any closing one up, so brackets of different kinds
nest; a span counts only if its last bracket is of the kind of its first.
-/

namespace CommandShell.Literal

open CommandShell.Text CommandShell.Line

inductive Bracket where
  | square
  | round
  | curly
  deriving DecidableEq

namespace Bracket

/-- The kind of bracket that the character opens. -/
def ofOpening? : Char → Option Bracket
  | '[' => some .square
  | '(' => some .round
  | '{' => some .curly
  | _ => none

def opening : Bracket → Char
  | .square => '['
  | .round => '('
  | .curly => '{'

def closing : Bracket → Char
  | .square => ']'
  | .round => ')'
  | .curly => '}'

end Bracket

/-- Whether the character closes a bracket of some kind. -/
def isClosing (c : Char) : Bool := c = ']' || c = ')' || c = '}'

/-- A bracketed piece of a line: its kind, the bytes it takes up with its brackets, and the text
between them. -/
structure Span where
  bracket : Bracket
  start : Nat
  stop : Nat
  inner : List Char
  deriving DecidableEq

/-- A span whose closing bracket is still to come; its text is kept last character first. -/
structure OpenSpan where
  bracket : Bracket
  start : Nat
  chars : List Char

/-- The open span with one more character of its text. -/
def OpenSpan.push (c : Char) (span : OpenSpan) : OpenSpan := { span with chars := c :: span.chars }

/-- The span that `c` at the byte `pos` completes, if `c` is of the right kind. -/
def OpenSpan.close (span : OpenSpan) (c : Char) (pos : Nat) : Option Span :=
  if c = span.bracket.closing then
    some ⟨span.bracket, span.start, pos + c.utf8Size, span.chars.reverse⟩
  else none

/-- What the bracket scanner knows: the number of open brackets, and the outermost of them. -/
structure Nesting where
  depth : Nat
  outermost : Option OpenSpan

/-- Reads one bare character at the byte `pos`: the nesting after it, and the span it ends. -/
def Nesting.read (n : Nesting) (pos : Nat) (c : Char) : Nesting × Option Span :=
  match Bracket.ofOpening? c with
  | some b =>
    match n.outermost with
    | none => (⟨n.depth + 1, some ⟨b, pos, []⟩⟩, none)
    | some o => (⟨n.depth + 1, some (o.push c)⟩, none)
  | none =>
    if isClosing c && 0 < n.depth then
      if n.depth = 1 then (⟨0, none⟩, n.outermost.bind fun o => o.close c pos)
      else (⟨n.depth - 1, n.outermost.map (OpenSpan.push c)⟩, none)
    else (⟨n.depth, n.outermost.map (OpenSpan.push c)⟩, none)

/-- The spans in the rest of a line, of which the scanner has read `pos` bytes. -/
def spansFrom (mode : Mode) (pos : Nat) (n : Nesting) : List Char → List Span
  | [] => []
  | c :: rest =>
    if mode.bare then
      let (after, found) := n.read pos c
      found.toList ++ spansFrom (mode.advance c) (pos + c.utf8Size) after rest
    else
      spansFrom (mode.advance c) (pos + c.utf8Size)
        ⟨n.depth, n.outermost.map (OpenSpan.push c)⟩ rest

/-- The bracketed spans at the top level of a line; one that never ends does not count. -/
def spans (line : List Char) : List Span := spansFrom .start 0 ⟨0, none⟩ line

/-- The kind of bracket and the text inside, if the trimmed text begins with an opening bracket
and ends with the closing one of its kind. -/
def unwrap (s : List Char) : Option (Bracket × List Char) :=
  match trim s with
  | [] => none
  | c :: rest =>
    match Bracket.ofOpening? c with
    | none => none
    | some b =>
      if rest.getLast? = some b.closing then some (b, rest.dropLast) else none

end CommandShell.Literal
