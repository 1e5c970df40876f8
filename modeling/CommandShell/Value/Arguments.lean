import CommandShell.Value.Basic
import CommandShell.Text.Numeral
/-!
# Arguments of a command

The values a command is called with, in the order of its parameters, and typed access to them.
An access fails when there is no such argument or when it is of another kind.
-/

namespace CommandShell

structure Arguments where
  command : String
  values : List Value

inductive ArgumentError where
  | missing (command : String) (index : Nat)
  | mismatch (command : String) (index : Nat) (expected found : String)
  deriving DecidableEq

def ArgumentError.message : ArgumentError → String
  | missing command index =>
    command ++ ": no argument at position " ++ Text.intText index
  | mismatch command index expected found =>
    command ++ ": argument " ++ Text.intText index ++ " is " ++ found ++ ", expected " ++ expected

namespace Arguments

def get? (args : Arguments) (index : Nat) : Option Value := args.values[index]?

/-- The argument, if there is one. -/
def value (args : Arguments) (index : Nat) : Except ArgumentError Value :=
  match args.get? index with
  | some v => .ok v
  | none => .error (.missing args.command index)

/-- The argument as `read` takes it, or the mismatch between it and what is expected. -/
def typed {α : Type} (args : Arguments) (expected : String) (read : Value → Option α)
    (index : Nat) : Except ArgumentError α := do
  let v ← args.value index
  match read v with
  | some a => .ok a
  | none => .error (.mismatch args.command index expected v.kind)

def bool (args : Arguments) : Nat → Except ArgumentError Bool := args.typed "bool" Value.bool?

def int (args : Arguments) : Nat → Except ArgumentError Int64 := args.typed "int" Value.int?

def float (args : Arguments) : Nat → Except ArgumentError Float := args.typed "float" Value.float?

def str (args : Arguments) : Nat → Except ArgumentError String := args.typed "string" Value.str?

/-- The string argument, or nothing for null. -/
def str? (args : Arguments) : Nat → Except ArgumentError (Option String) :=
  args.typed "string" fun
    | .null => some none
    | v => v.str?.map some

def list (args : Arguments) : Nat → Except ArgumentError (List Value) :=
  args.typed "list" Value.items?

def map (args : Arguments) : Nat → Except ArgumentError (List (String × Value)) :=
  args.typed "map" Value.map?

def console (args : Arguments) : Nat → Except ArgumentError Console :=
  args.typed "console" Value.console?

/-- The text that an ambient argument holds. -/
def ambientText (args : Arguments) (index : Nat) : Except ArgumentError String := do
  match ← args.value index with
  | .ambient ⟨_, .text s⟩ => .ok s
  | .ambient _ => .error (.mismatch args.command index "ambient" "ambient of another type")
  | v => .error (.mismatch args.command index "ambient" v.kind)

end Arguments

end CommandShell
