import CommandShell.Json.Text
import CommandShell.Line.Random
import CommandShell.Text.Blank
import CommandShell.Text.Digit
/-!
# Placeholders

`${name}` in a line stands for a variable, `${name.field.0}` for a part of one, and `${rand.int}`,
`${rand.int(1,6)}` and `${rand.bool}` for random values.  A line is cut into plain text and
placeholders once; what a placeholder is replaced with is not looked at again, and one that
stands for nothing stays as it is.

    pieces line = l₀ ${e₁} l₁ … ${eₙ} lₙ, each eᵢ not empty and without a closing brace
-/

namespace CommandShell.Line

open CommandShell.Text

/-- A part of a line. -/
inductive Piece where
  | plain (text : List Char)
  | placeholder (expression : List Char)
  deriving DecidableEq

/-- Where the reader of placeholders stands; what it has collected is kept last first. -/
inductive Reader where
  | plain (text : List Char)
  /-- Behind a dollar sign. -/
  | dollar (text : List Char)
  /-- Behind `${`. -/
  | inside (text expression : List Char)

/-- The pieces of the rest of a line. -/
def piecesFrom : Reader → List Char → List Piece
  | .plain text, [] => [.plain text.reverse]
  | .dollar text, [] => [.plain ('$' :: text).reverse]
  | .inside text expression, [] => [.plain (expression ++ '{' :: '$' :: text).reverse]
  | .plain text, c :: rest =>
    if c = '$' then piecesFrom (.dollar text) rest else piecesFrom (.plain (c :: text)) rest
  | .dollar text, c :: rest =>
    if c = '{' then piecesFrom (.inside text []) rest
    else if c = '$' then piecesFrom (.dollar ('$' :: text)) rest
    else piecesFrom (.plain (c :: '$' :: text)) rest
  | .inside text expression, c :: rest =>
    if c = '}' then
      if expression.isEmpty then piecesFrom (.plain ('}' :: '{' :: '$' :: text)) rest
      else .plain text.reverse :: .placeholder expression.reverse :: piecesFrom (.plain []) rest
    else piecesFrom (.inside text (c :: expression)) rest

/-- The pieces of a line. -/
def pieces (line : List Char) : List Piece := piecesFrom (.plain []) line

/-! ## Expressions -/

/-- What stands between the braces. -/
inductive Expression where
  | anyInteger
  | anyBool
  /-- A range whose ends may be too large to read, in either order. -/
  | range (first last : Option Int64)
  | path (names : List Char)
  deriving DecidableEq

/-- The text behind `start`, if the text begins with that. -/
def dropStart? : List Char → List Char → Option (List Char)
  | [], s => some s
  | _ :: _, [] => none
  | c :: start, d :: s => if c = d then dropStart? start s else none

/-- Whether the text is a whole number, whatever script its digits are from. -/
def isWholeNumber (s : List Char) : Bool :=
  let digits := match s with
    | '+' :: rest => rest
    | '-' :: rest => rest
    | _ => s
  !digits.isEmpty && digits.all isDecimalDigit

/-- The two ends of `rand.int(low,high)`. -/
def rangeEnds? (s : List Char) : Option (List Char × List Char) := do
  let rest ← dropStart? "rand.int(".toList s
  if rest.getLast? = some ')' then
    let (low, high) ← cutAt ',' rest.dropLast
    if isWholeNumber (trim low) && isWholeNumber (trim high) then return (trim low, trim high)
    else none
  else none

/-- Reads an expression. -/
def Expression.read (s : List Char) : Expression :=
  let s := trim s
  if s = "rand.int".toList then anyInteger
  else if s = "rand.bool".toList then anyBool
  else match rangeEnds? s with
    | some (low, high) => range (readInt64? low) (readInt64? high)
    | none => path s

/-- The part of a value under one name or index. -/
def child? (part : List Char) : Json → Option Json
  | .fields named => Assoc.get? (String.ofList part) named
  | .array items => (readWord? part).bind fun i => items[i]?
  | _ => none

/-- The part of a value at the end of a path. -/
def descend? (v : Json) : List (List Char) → Option Json
  | [] => some v
  | part :: rest => (child? part v).bind fun w => descend? w rest

/-- The value that a name or a path stands for: a variable of the whole name comes first. -/
def lookupPath (lookup : String → Option Json) (names : List Char) : Option Json :=
  match lookup (String.ofList names) with
  | some v => some v
  | none => do
    let (name, rest) ← cutAt '.' names
    let v ← lookup (String.ofList name)
    descend? v (splitAt '.' rest)

/-- How a value stands in a line: strings as they are, other values as their text. -/
def insertText : Json → List Char
  | .string s => s.toList
  | v => v.compactText

/-- What an expression stands for. -/
def Expression.evaluate (lookup : String → Option Json) (e : Expression) (g : Generator) :
    Option (List Char) × Generator :=
  match e with
  | anyInteger =>
    let (n, g) := g.between (-(Nat.pow 2 31 : Int)) (Nat.pow 2 31 - 1)
    (some (intText n).toList, g)
  | anyBool =>
    let (b, g) := g.flip
    (some (if b then "true".toList else "false".toList), g)
  | range (some first) (some last) =>
    let (n, g) := g.between (min first.toInt last.toInt) (max first.toInt last.toInt)
    (some (intText n).toList, g)
  | range _ _ => (none, g)
  | path names => ((lookupPath lookup names).map insertText, g)

/-- A placeholder as it stands in a line. -/
def verbatim (expression : List Char) : List Char := '$' :: '{' :: expression ++ ['}']

/-- The text of the pieces with every placeholder replaced that stands for something. -/
def substitutePieces (lookup : String → Option Json) (g : Generator) :
    List Piece → List Char × Generator
  | [] => ([], g)
  | .plain text :: rest =>
    let (more, g) := substitutePieces lookup g rest
    (text ++ more, g)
  | .placeholder expression :: rest =>
    let (found, g) := (Expression.read expression).evaluate lookup g
    let (more, g) := substitutePieces lookup g rest
    (found.getD (verbatim expression) ++ more, g)

/-- The line with its placeholders replaced. -/
def substitute (lookup : String → Option Json) (line : String) (g : Generator) :
    String × Generator :=
  let (text, g) := substitutePieces lookup g (pieces line.toList)
  (String.ofList text, g)

end CommandShell.Line
