import CommandShell.Text.Numeral
/-!
# JSON documents as written

A `Document` is the tree of a JSON text with its numbers still in digits, its `\u` escapes still
single code units and its repeated fields still all there.  Whether a number is in range or a
surrogate has its partner is not a matter of grammar; `Json.ofDocument?` decides it, and a reader
that skips a field never asks.

    Document.parse? s = some d ↔ s is one value of the JSON grammar with blanks around it

A text is cut into lexemes by a machine that looks at one character at a time, and the lexemes
are put together with a stack of containers that are still open.
-/

namespace CommandShell.Json

open CommandShell.Text

/-- A part of a written string: a character, or a code unit given by a `\u` escape. -/
inductive Piece where
  | plain (c : Char)
  | unit (n : Nat)
  deriving DecidableEq

/-- A written number. -/
structure Numeral where
  negative : Bool
  whole : List Char
  fraction : List Char
  exponent : Option Int
  deriving DecidableEq

inductive Document where
  | null
  | bool (b : Bool)
  | numeral (n : Numeral)
  | string (pieces : List Piece)
  | array (items : List Document)
  | object (named : List (List Piece × Document))

namespace Numeral

/-- Reads an exponent, which needs a digit. -/
def readExponent? : List Char → Option (Option Int)
  | [] => some none
  | c :: s => if c = 'e' ∨ c = 'E' then (readInt? s).map some else none

/-- Reads an optional fraction, which needs a digit, and an optional exponent. -/
def readTail? (negative : Bool) (whole : List Char) : List Char → Option Numeral
  | '.' :: s =>
    let (fraction, rest) := s.span Char.isDigit
    if fraction.isEmpty then none
    else (readExponent? rest).map fun e => ⟨negative, whole, fraction, e⟩
  | s => (readExponent? s).map fun e => ⟨negative, whole, [], e⟩

/-- Reads digits without a needless leading zero, then fraction and exponent. -/
def readUnsigned? (negative : Bool) (s : List Char) : Option Numeral :=
  match s.span Char.isDigit with
  | ([], _) => none
  | ('0' :: _ :: _, _) => none
  | (whole, rest) => readTail? negative whole rest

/-- Reads a number of the JSON grammar. -/
def read? : List Char → Option Numeral
  | '-' :: s => readUnsigned? true s
  | s => readUnsigned? false s

end Numeral

/-! ## Lexemes -/

inductive Lexeme where
  | arrayOpen
  | arrayClose
  | objectOpen
  | objectClose
  | comma
  | colon
  | null
  | bool (b : Bool)
  | numeral (n : Numeral)
  | string (pieces : List Piece)

/-- What the lexeme scanner is inside of; collected characters and pieces are kept last first. -/
inductive Scan where
  | between
  | word (missing : List Char) (lexeme : Lexeme)
  | numeral (chars : List Char)
  | string (pieces : List Piece)
  | escape (pieces : List Piece)
  | hex (pieces : List Piece) (missing : Nat) (value : Nat)

/-- The four blanks of JSON. -/
def isJsonBlank (c : Char) : Bool := c = ' ' || c = '\t' || c = '\n' || c = '\r'

/-- The characters that numbers are made of. -/
def isNumeralChar (c : Char) : Bool :=
  c.isDigit || c = '-' || c = '+' || c = '.' || c = 'e' || c = 'E'

/-- Reads a character between lexemes: what it begins and what it is. -/
def Scan.enter (c : Char) : Option (Scan × List Lexeme) :=
  if isJsonBlank c then some (.between, [])
  else if c = '"' then some (.string [], [])
  else if c.isDigit || c = '-' then some (.numeral [c], [])
  else match c with
    | '[' => some (.between, [.arrayOpen])
    | ']' => some (.between, [.arrayClose])
    | '{' => some (.between, [.objectOpen])
    | '}' => some (.between, [.objectClose])
    | ',' => some (.between, [.comma])
    | ':' => some (.between, [.colon])
    | 'n' => some (.word ['u', 'l', 'l'] .null, [])
    | 't' => some (.word ['r', 'u', 'e'] (.bool true), [])
    | 'f' => some (.word ['a', 'l', 's', 'e'] (.bool false), [])
    | _ => none

/-- The character that a one-letter escape stands for. -/
def escapedChar? : Char → Option Char
  | '"' => some '"'
  | '\\' => some '\\'
  | '/' => some '/'
  | 'b' => some '\x08'
  | 'f' => some '\x0c'
  | 'n' => some '\n'
  | 'r' => some '\r'
  | 't' => some '\t'
  | _ => none

/-- The value of a hexadecimal digit. -/
def hexValue? (c : Char) : Option Nat :=
  if c.isDigit then some (c.toNat - 48)
  else if 'a' ≤ c ∧ c ≤ 'f' then some (c.toNat - 87)
  else if 'A' ≤ c ∧ c ≤ 'F' then some (c.toNat - 55)
  else none

/-- Reads one character: the scanner after it and the lexemes it completes. -/
def Scan.read : Scan → Char → Option (Scan × List Lexeme)
  | .between, c => Scan.enter c
  | .word [] _, _ => none
  | .word [last] lexeme, c => if c = last then some (.between, [lexeme]) else none
  | .word (next :: missing) lexeme, c => if c = next then some (.word missing lexeme, []) else none
  | .numeral chars, c =>
    if isNumeralChar c then some (.numeral (c :: chars), [])
    else do
      let n ← Numeral.read? chars.reverse
      let (scan, found) ← Scan.enter c
      return (scan, .numeral n :: found)
  | .string pieces, c =>
    if c = '"' then some (.between, [.string pieces.reverse])
    else if c = '\\' then some (.escape pieces, [])
    else if c.toNat < 32 then none
    else some (.string (.plain c :: pieces), [])
  | .escape pieces, c =>
    if c = 'u' then some (.hex pieces 3 0, [])
    else (escapedChar? c).map fun d => (.string (.plain d :: pieces), [])
  | .hex pieces 0 value, c =>
    (hexValue? c).map fun d => (.string (.unit (16 * value + d) :: pieces), [])
  | .hex pieces (missing + 1) value, c =>
    (hexValue? c).map fun d => (.hex pieces missing (16 * value + d), [])

/-- The lexemes of a text, if it is made of lexemes and blanks. -/
def lexemesFrom : Scan → List Char → Option (List Lexeme)
  | .between, [] => some []
  | .numeral chars, [] => (Numeral.read? chars.reverse).map fun n => [.numeral n]
  | _, [] => none
  | scan, c :: rest =>
    match scan.read c with
    | none => none
    | some (next, found) => (lexemesFrom next rest).map fun more => found ++ more

/-! ## Documents -/

/-- A container that is still open, with what is in it so far, last first. -/
inductive Frame where
  | array (items : List Document)
  | object (named : List (List Piece × Document)) (name : List Piece)

/-- What the grammar allows next. -/
inductive Expect where
  | value
  | firstItem
  | separator
  | firstName (named : List (List Piece × Document))
  | name (named : List (List Piece × Document))
  | colon (named : List (List Piece × Document)) (name : List Piece)
  | nothing (whole : Document)

/-- The open containers, innermost first, and what may come next. -/
structure Build where
  frames : List Frame
  expect : Expect

/-- Puts a finished value into the innermost container, or ends the document with it. -/
def Build.deliver (value : Document) : List Frame → Build
  | [] => ⟨[], .nothing value⟩
  | .array items :: frames => ⟨.array (value :: items) :: frames, .separator⟩
  | .object named name :: frames => ⟨.object ((name, value) :: named) name :: frames, .separator⟩

/-- Reads the lexeme that begins a value. -/
def Build.begin (frames : List Frame) : Lexeme → Option Build
  | .null => some (Build.deliver .null frames)
  | .bool b => some (Build.deliver (.bool b) frames)
  | .numeral n => some (Build.deliver (.numeral n) frames)
  | .string pieces => some (Build.deliver (.string pieces) frames)
  | .arrayOpen => some ⟨.array [] :: frames, .firstItem⟩
  | .objectOpen => some ⟨frames, .firstName []⟩
  | _ => none

/-- Reads one lexeme. -/
def Build.read (b : Build) (lexeme : Lexeme) : Option Build :=
  match b.expect, lexeme, b.frames with
  | .nothing _, _, _ => none
  | .value, l, frames => Build.begin frames l
  | .firstItem, .arrayClose, .array items :: frames =>
    some (Build.deliver (.array items.reverse) frames)
  | .firstItem, l, frames => Build.begin frames l
  | .separator, .comma, .array items :: frames => some ⟨.array items :: frames, .value⟩
  | .separator, .arrayClose, .array items :: frames =>
    some (Build.deliver (.array items.reverse) frames)
  | .separator, .comma, .object named _ :: frames => some ⟨frames, .name named⟩
  | .separator, .objectClose, .object named _ :: frames =>
    some (Build.deliver (.object named.reverse) frames)
  | .firstName named, .objectClose, frames => some (Build.deliver (.object named.reverse) frames)
  | .firstName named, .string name, frames => some ⟨frames, .colon named name⟩
  | .name named, .string name, frames => some ⟨frames, .colon named name⟩
  | .colon named name, .colon, frames => some ⟨.object named name :: frames, .value⟩
  | _, _, _ => none

/-- Reads lexemes one after the other. -/
def Build.readAll (b : Build) : List Lexeme → Option Build
  | [] => some b
  | l :: rest => (b.read l).bind fun next => next.readAll rest

/-- The document that a text writes, if it is exactly one. -/
def Document.parse? (s : List Char) : Option Document :=
  match (lexemesFrom .between s).bind (Build.readAll ⟨[], .value⟩) with
  | some ⟨_, .nothing whole⟩ => some whole
  | _ => none

end CommandShell.Json
