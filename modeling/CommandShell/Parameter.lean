import CommandShell.Value.Type
import CommandShell.Text.Numeral
/-!
# Parameters

What a command wants to be told: the type of a value and how it is named on the line.  A
parameter with a long name or a letter is addressed by a flag, one without takes the next word
that is left over.

    answersTo p name ↔ name is the long name of p or its letter alone
    find? ps name = the parameter with that long name, else the first that answers to it
    find? ps name = the parameter at position? ps name                  (find?_eq_position?)
-/

namespace CommandShell

structure Parameter where
  /-- Its place among the parameters of its command. -/
  index : Nat
  name : Option String
  short : Option Char
  long : Option String
  required : Bool
  default : Option String
  /-- Takes all words that are left, joined by spaces. -/
  joint : Bool
  type : ValueType
  description : Option String
  deriving DecidableEq

namespace Parameter

/-- A parameter of a type and nothing else. -/
def ofType (type : ValueType) : Parameter :=
  ⟨0, none, none, none, false, none, false, type, none⟩

/-- A parameter without a flag. -/
def named (name : String) (type : ValueType) : Parameter := { ofType type with name := some name }

/-- A parameter with a long flag. -/
def flag (long : String) (type : ValueType) : Parameter := { ofType type with long := some long }

/-- Whether a flag addresses the parameter. -/
def hasFlag (p : Parameter) : Bool := p.short.isSome || p.long.isSome

/-- The letter of the parameter as a name. -/
def shortName (p : Parameter) : Option String := p.short.map fun c => String.ofList [c]

def answersTo (p : Parameter) (name : String) : Bool :=
  p.long = some name || p.shortName = some name

/-- What messages call the parameter. -/
def label (p : Parameter) : String :=
  match p.long, p.short, p.name with
  | some long, _, _ => "--" ++ long
  | none, some c, _ => String.ofList ['-', c]
  | none, none, some name => name
  | none, none, none => "#" ++ Text.intText p.index

/-- The position of the parameter that a flag names, long names first. -/
def position? (ps : List Parameter) (name : String) : Option Nat :=
  (ps.findIdx? fun p => p.long = some name).or (ps.findIdx? fun p => p.answersTo name)

/-- The parameter that a flag names, long names first. -/
def find? (ps : List Parameter) (name : String) : Option Parameter :=
  (ps.find? fun p => p.long = some name).or (ps.find? fun p => p.answersTo name)

/-- `find?` finds what stands at `position?`. -/
theorem find?_eq_position? (ps : List Parameter) (name : String) :
    find? ps name = (position? ps name).bind fun i => ps[i]? := by
  unfold find? position?
  rw [List.find?_eq_bind_findIdx?_getElem?, List.find?_eq_bind_findIdx?_getElem?]
  cases hlong : ps.findIdx? fun p => p.long = some name with
  | none => rw [Option.bind_none, Option.none_or, Option.none_or]
  | some i =>
    have hi := (List.findIdx?_eq_some_iff_getElem.1 hlong).1
    rw [Option.some_or, Option.bind_some, List.getElem?_eq_getElem hi, Option.some_or]

/-- The parameters with their places. -/
def indexedFrom (n : Nat) : List Parameter → List Parameter
  | [] => []
  | p :: rest => { p with index := n } :: indexedFrom (n + 1) rest

def indexed (ps : List Parameter) : List Parameter := indexedFrom 0 ps

/-! ## JSON -/

/-- The parameter as a JSON value. -/
def toJson (p : Parameter) : Json :=
  Json.object
    [("index", Json.ofNat p.index), ("name", Json.ofText? p.name),
     ("short", Json.ofText? p.shortName), ("long", Json.ofText? p.long),
     ("required", .bool p.required), ("default_value", Json.ofText? p.default),
     ("joint", .bool p.joint), ("declared_type", p.type.toJson),
     ("description", Json.ofText? p.description)]

/-- A field that may be missing or null and is a string otherwise. -/
def textField? (v : Json) (name : String) : Option (Option String) :=
  match v.get? name with
  | none => some none
  | some .null => some none
  | some (.string s) => some (some s)
  | _ => none

/-- A field that may be missing or null and is a single character otherwise. -/
def charField? (v : Json) (name : String) : Option (Option Char) :=
  match textField? v name with
  | some none => some none
  | some (some s) =>
    match s.toList with
    | [c] => some (some c)
    | _ => none
  | none => none

/-- A field that may be missing, then false, and is a truth value otherwise. -/
def boolField? (v : Json) (name : String) : Option Bool :=
  match v.get? name with
  | none => some false
  | some (.bool b) => some b
  | _ => none

/-- A field that may be missing, then zero, and is a whole number below 2 ^ 64 otherwise. -/
def wordField? (v : Json) (name : String) : Option Nat :=
  match v.get? name with
  | none => some 0
  | some (.integer n) => if 0 ≤ n ∧ n < Nat.pow 2 64 then some n.toNat else none
  | _ => none

/-- Reads a parameter from the fields of an object; those of other names do not matter. -/
def ofFields? (v : Json) : Option Parameter := do
  return {
    index := ← wordField? v "index"
    name := ← textField? v "name"
    short := ← charField? v "short"
    long := ← textField? v "long"
    required := ← boolField? v "required"
    default := ← textField? v "default_value"
    joint := ← boolField? v "joint"
    type := ← (v.get? "declared_type").bind ValueType.ofJson?
    description := ← textField? v "description" }

/-- The fields of a parameter in their order. -/
def fieldNames : List String :=
  ["index", "name", "short", "long", "required", "default_value", "joint", "declared_type",
    "description"]

/-- Reads a parameter from a JSON object, or from an array that begins with its fields. -/
def ofJson? : Json → Option Parameter
  | .fields named => ofFields? (.fields named)
  | .array items =>
    if items.length ≤ fieldNames.length then ofFields? (Json.object (fieldNames.zip items)) else none
  | _ => none

/-- Reads a list of parameters and gives them their places. -/
def listOfJson? (items : List Json) : Option (List Parameter) := (items.mapM ofJson?).map indexed

end Parameter

end CommandShell
