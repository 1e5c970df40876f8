import CommandShell.Literal.Bracket
import CommandShell.Parse.Flags
/-!
# The strategy with bracketed spans

Bracketed literals in the line are values of collection parameters.  A span right behind the flag
of such a parameter belongs to it; the others go to the collection parameters that have none yet,
in order.  What remains of the line is read like any line with flags.  The literals are converted
in no order that the line settles.

    --tags [a,b] {x:1} word
-/

namespace CommandShell

open CommandShell.Text CommandShell.Line CommandShell.Literal

/-- The characters that begin in the first `n` bytes of a text. -/
def takeBytes (n : Nat) : List Char → List Char
  | [] => []
  | c :: rest => if n = 0 then [] else c :: takeBytes (n - c.utf8Size) rest

/-- The characters behind the first `n` bytes of a text. -/
def dropBytes (n : Nat) : List Char → List Char
  | [] => []
  | c :: rest => if n = 0 then c :: rest else dropBytes (n - c.utf8Size) rest

/-- The name of the flag that a text ends with, and the bytes before that word. -/
def trailingFlag? (segment : List Char) : Option (String × Nat) := do
  let last ← (tokenize segment).getLast?
  if last.stop ≠ byteLength (trimEnd segment) then none
  else
    let word := unquote last.text
    if looksLikeFlag word then
      let name := flagName word
      let name := if name.getLast? = some '=' then name.dropLast else name
      return (String.ofList name, last.start)
    else none

/-- Literals by the position of the parameter that they are bound to, and those bound to none. -/
structure Binding where
  bound : List (Nat × Collection)
  free : List Collection
  /-- The line without its spans and without the flags that took them. -/
  remainder : List Char

/-- Whether the parameter at a position can take a span. -/
def canBind (ps : List Parameter) (bound : List (Nat × Collection)) (position : Nat) : Bool :=
  (ps[position]?.any fun p => p.type.isCollection) && !Assoc.contains position bound

/-- Binds a literal that stands behind a text. -/
def Binding.add (ps : List Parameter) (b : Binding) (segment : List Char) (literal : Collection) :
    Binding :=
  let target := do
    let (name, start) ← trailingFlag? segment
    let position ← Parameter.position? ps name
    if canBind ps b.bound position then return (position, start) else none
  match target with
  | some (position, start) =>
    ⟨Assoc.put position literal b.bound, b.free,
      b.remainder ++ takeBytes start segment ++ [' ']⟩
  | none => ⟨b.bound, b.free ++ [literal], b.remainder ++ segment ++ [' ']⟩

/-- Binds the spans of a line one after the other; `rest` is the line from the byte `cursor`. -/
def Binding.addAll (ps : List Parameter) (b : Binding) (cursor : Nat) (rest : List Char) :
    List Span → Binding
  | [] => { b with remainder := b.remainder ++ rest }
  | span :: spans =>
    (b.add ps (takeBytes (span.start - cursor) rest) (.ofInner span.bracket span.inner)).addAll ps
      span.stop (dropBytes (span.stop - cursor) rest) spans

/-- Hands out the free literals to the parameters without one, from `position` on. -/
def bindFree (bound : List (Nat × Collection)) (position : Nat) :
    List Collection → List Parameter → List (Nat × Collection)
  | _, [] => bound
  | [], _ => bound
  | literal :: free, p :: rest =>
    if p.type.isCollection && !Assoc.contains position bound then
      bindFree (Assoc.put position literal bound) (position + 1) free rest
    else bindFree bound (position + 1) (literal :: free) rest

/-- The literals of a line by the position of their parameter, and the line without them. -/
def bindSpans (ps : List Parameter) (raw : List Char) : List (Nat × Collection) × List Char :=
  let b := Binding.addAll ps ⟨[], [], []⟩ 0 raw (spans raw)
  (bindFree b.bound 0 b.free ps, b.remainder)

/-- Converts the literals that parameters are bound to, one after the other. -/
def convertBound (ctx : ParseContext) (ps : List Parameter) :
    List (Nat × Collection) → Except ParseFailure (List (Nat × Value))
  | [] => .ok []
  | (position, literal) :: rest =>
    match ps[position]? with
    | none => convertBound ctx ps rest
    | some p =>
      match ctx.coercions.convert literal p.type with
      | .error cause => .error (.coercion p.label cause)
      | .ok v => (convertBound ctx ps rest).map fun vs => (position, v) :: vs

/-- The values of the parameters that literals are bound to.  If some do not fit, the first of them
that the walk comes to is named. -/
def prefill (ctx : ParseContext) (ps : List Parameter) (bound : List (Nat × Collection)) :
    Except ParseFailure (List (Nat × Value)) :=
  convertBound ctx ps (ctx.order.walk bound)

namespace Strategy

def spanMismatch (ps : List Parameter) : Option Mismatch :=
  (flagMismatch ps).or
    (if ps.any fun p => p.type.isCollection then none else some .noCollection)

/-- The strategy with bracketed spans. -/
def spans : Strategy where
  mismatch := spanMismatch
  parse ps raw ctx :=
    let (bound, remainder) := bindSpans ps raw.toList
    match prefill ctx ps bound with
    | .error e => .error e
    | .ok prefilled =>
      resolve ps (flagExtraction ps (String.ofList remainder)) .flags ctx prefilled

end Strategy

end CommandShell
