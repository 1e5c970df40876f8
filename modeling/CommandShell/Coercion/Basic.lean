import CommandShell.Coercion.Collection
import CommandShell.Decimal.Basic
import CommandShell.Literal.Scalar
/-!
# From literals to values

`Coercions.coerce` turns what a line gives for a parameter into a value of the parameter's type.
A coercer registered under the name of a type comes before the built-in rules; a custom type
without one goes to the form filler.

    coerce (.list t) s = the items of s, each coerced to t
    read t s = convert (the literal that s is) t, for a collection t      (builtin_read_eq_convert)
-/

namespace CommandShell

open CommandShell.Text

/-- What a line gives for a parameter: a bare flag, or a text. -/
inductive Given where
  | present
  | text (s : String)
  deriving DecidableEq

/-- The rules for types that are not built in, and for those that are to be read differently.  They
are functions of what is given, and are taken not to panic. -/
structure Coercions where
  /-- Coercers by the display name of their type. -/
  custom : List (String × (String → Except CoercionError Value))
  /-- Builds a value of a custom type from its name and the text given, if any. -/
  formFiller : Option (String → Option String → Except CoercionError Json)

namespace Coercions

/-- The built-in rules alone. -/
def builtin : Coercions := ⟨[], none⟩

/-- Adds a coercer, in place of an earlier one for the same type. -/
def register (c : Coercions) (type : String) (coerce : String → Except CoercionError Value) :
    Coercions :=
  { c with custom := Assoc.put type coerce c.custom }

/-- Asks the form filler for a value; null is no value. -/
def fillForm (c : Coercions) (type : String) (given : Given) : Except CoercionError Value :=
  match c.formFiller with
  | none => .error (.unsupported type)
  | some fill =>
    let text := match given with
      | .present => none
      | .text s => some s
    match fill type text with
    | .error e => .error e
    | .ok .null => .error (.form type "no value was produced")
    | .ok v => .ok (.object v)

/-- Applies a custom coercer, which needs a text. -/
def applyCustom (coerce : String → Except CoercionError Value) (type : ValueType) :
    Given → Except CoercionError Value
  | .present => .error (.missing type.display)
  | .text s => coerce s

def readBool (s : String) : Except CoercionError Value :=
  match Literal.readBool? s.toList with
  | some b => .ok (.bool b)
  | none => .error (.invalid "bool" s)

def readInt (s : String) : Except CoercionError Value :=
  match readInt64? (trim s.toList) with
  | some n => .ok (.int n)
  | none => .error (.invalid "int" s)

/-- Reads a float; the number is written with ASCII digits although other digits look like a
number to the flag rule. -/
def readFloat (s : String) : Except CoercionError Value :=
  match Decimal.read? (trim s.toList) with
  | some d => .ok (.float d.toFloat)
  | none => .error (.invalid "float" s)

def readChar (s : String) : Except CoercionError Value :=
  match s.toList with
  | [c] => .ok (.char c)
  | _ => .error (.invalid "char" s)

/-- The value of a type that something given stands for. -/
def coerce (c : Coercions) (type : ValueType) (given : Given) : Except CoercionError Value :=
  match Assoc.get? type.display c.custom with
  | some custom => applyCustom custom type given
  | none =>
    match type, given with
    | .bool, .present => .ok (.bool true)
    | .bool, .text s => readBool s
    | .int, .text s => readInt s
    | .float, .text s => readFloat s
    | .char, .text s => readChar s
    | .str, .text s => .ok (.str s)
    | .list e, .text s =>
      ((Collection.ofText s (.list e)).values fun item => coerce c e (.text item)).map .list
    | .array e, .text s =>
      ((Collection.ofText s (.array e)).values fun item => coerce c e (.text item)).map .list
    | .set e, .text s =>
      ((Collection.ofText s (.set e)).distinctValues fun item => coerce c e (.text item)).map .set
    | .map e, .text s =>
      ((Collection.ofText s (.map e)).entries fun item => coerce c e (.text item)).map .map
    | .ambient name, _ => .error (.unsupported name)
    | .custom name, _ => c.fillForm name given
    | t, .present => .error (.missing t.display)

/-- The value of a type that a text stands for. -/
def read (c : Coercions) (type : ValueType) (s : String) : Except CoercionError Value :=
  c.coerce type (.text s)

/-- A literal as a list. -/
def listOf (c : Coercions) (l : Collection) (element : ValueType) : Except CoercionError Value :=
  (l.values (c.read element)).map .list

/-- A literal as a set. -/
def setOf (c : Coercions) (l : Collection) (element : ValueType) : Except CoercionError Value :=
  (l.distinctValues (c.read element)).map .set

/-- A literal as a map. -/
def mapOf (c : Coercions) (l : Collection) (element : ValueType) : Except CoercionError Value :=
  (l.entries (c.read element)).map .map

/-- A literal as whatever collection the type is; an array is a list. -/
def convert (c : Coercions) (l : Collection) : ValueType → Except CoercionError Value
  | .list e => c.listOf l e
  | .array e => c.listOf l e
  | .set e => c.setOf l e
  | .map e => c.mapOf l e
  | t => .error (.invalid t.display (String.intercalate "," l.items))

/-! ## Lemmas -/

theorem builtin_read_eq_convert {t : ValueType} (h : t.isCollection = true) (s : String) :
    builtin.read t s = builtin.convert (Collection.ofText s t) t := by
  cases t with
  | list e => rw [read, coerce]; rfl
  | array e => rw [read, coerce]; rfl
  | set e => rw [read, coerce]; rfl
  | map e => rw [read, coerce]; rfl
  | _ => cases h

end Coercions

end CommandShell
