import CommandShell.Assoc
/-!
# JSON values

Variables, results of commands and records are JSON values.  An object is a list of fields with
ascending names, so that two objects with the same fields are the same value; `Json.object`
builds one from fields in any order, the last of a name winning.

Whole numbers and floats are different values even when they are equal as numbers, and floats
compare as IEEE numbers do.
-/

namespace CommandShell

inductive Json where
  | null
  | bool (b : Bool)
  | integer (n : Int)
  | float (x : Float)
  | string (s : String)
  | array (items : List Json)
  | fields (named : List (String × Json))

namespace Json

instance : Inhabited Json := ⟨null⟩

/-- The object with these fields; the last of a name counts. -/
def object (named : List (String × Json)) : Json := fields (Assoc.sorted named)

/-- The float, or null for one that is not finite: JSON has no text for it. -/
def ofFloat (x : Float) : Json := if x.isFinite then float x else null

def ofNat (n : Nat) : Json := integer n

/-- The text, or null. -/
def ofText? (s : Option String) : Json := (s.map string).getD null

/-- The field of an object. -/
def get? (name : String) : Json → Option Json
  | fields named => Assoc.get? name named
  | _ => none

mutual

/-- Equality of values: of one kind and equal in it. -/
def beq : Json → Json → Bool
  | null, null => true
  | bool a, bool b => a = b
  | integer a, integer b => a = b
  | float a, float b => a == b
  | string a, string b => a = b
  | array as, array bs => beqItems as bs
  | fields as, fields bs => beqFields as bs
  | _, _ => false

def beqItems : List Json → List Json → Bool
  | [], [] => true
  | a :: as, b :: bs => beq a b && beqItems as bs
  | _, _ => false

def beqFields : List (String × Json) → List (String × Json) → Bool
  | [], [] => true
  | (j, a) :: as, (k, b) :: bs => j = k && beq a b && beqFields as bs
  | _, _ => false

end

end Json

end CommandShell
