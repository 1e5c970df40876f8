import CommandShell.Json.Basic
/-!
# Types of parameters

A parameter declares what its value is: a scalar, a collection of one element type, a handle that
the surroundings supply (`ambient`), or a type that a coercer or form filler builds (`custom`).
-/

namespace CommandShell

inductive ValueType where
  | bool
  | int
  | float
  | char
  | str
  | list (element : ValueType)
  | array (element : ValueType)
  | set (element : ValueType)
  | map (element : ValueType)
  | ambient (name : String)
  | custom (name : String)
  deriving DecidableEq

namespace ValueType

/-- The name under which the console is supplied. -/
def consoleName : String := "console"

def console : ValueType := ambient consoleName

/-- The element type of a collection. -/
def element? : ValueType → Option ValueType
  | list e => some e
  | array e => some e
  | set e => some e
  | map e => some e
  | _ => none

def isCollection (t : ValueType) : Bool := t.element?.isSome

def isAmbient : ValueType → Bool
  | ambient _ => true
  | _ => false

/-- The type as it stands in messages, and the name a coercer is registered under. -/
def display : ValueType → String
  | bool => "bool"
  | int => "int"
  | float => "float"
  | char => "char"
  | str => "string"
  | list e => "list<" ++ e.display ++ ">"
  | array e => "array<" ++ e.display ++ ">"
  | set e => "set<" ++ e.display ++ ">"
  | map e => "map<string, " ++ e.display ++ ">"
  | ambient name => name
  | custom name => name

/-- The type as a JSON value. -/
def toJson : ValueType → Json
  | bool => .string "bool"
  | int => .string "int"
  | float => .string "float"
  | char => .string "char"
  | str => .string "str"
  | list e => .object [("list", e.toJson)]
  | array e => .object [("array", e.toJson)]
  | set e => .object [("set", e.toJson)]
  | map e => .object [("map", e.toJson)]
  | ambient name => .object [("ambient", .string name)]
  | custom name => .object [("custom", .string name)]

/-- The scalar type of that name. -/
def scalar? (name : String) : Option ValueType :=
  if name = "bool" then some bool
  else if name = "int" then some int
  else if name = "float" then some float
  else if name = "char" then some char
  else if name = "str" then some str
  else none

/-- The collection type of that name. -/
def collection? (name : String) (element : ValueType) : Option ValueType :=
  if name = "list" then some (list element)
  else if name = "array" then some (array element)
  else if name = "set" then some (set element)
  else if name = "map" then some (map element)
  else none

/-- Reads a type from a JSON value: the name of a scalar, or an object with one field, which is
null for a scalar. -/
def ofJson? : Json → Option ValueType
  | .string name => scalar? name
  | .fields [(name, .null)] => scalar? name
  | .fields [(name, .string s)] =>
    if name = "ambient" then some (ambient s)
    else if name = "custom" then some (custom s)
    else (scalar? s).bind (collection? name)
  | .fields [(name, .fields [named])] => (ofJson? (.fields [named])).bind (collection? name)
  | _ => none

end ValueType

end CommandShell
