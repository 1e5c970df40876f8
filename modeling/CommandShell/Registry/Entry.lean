import CommandShell.Parse.Strategy
import CommandShell.Script.Basic
/-!
# Entries of a registry

An entry is a command, a filter, or a handler that runs when the interpreter starts or stops.
Filters and these handlers have a priority; the lowest runs first.

A filter is a function of the call, and a handler of the start or of the stop comes to one result:
they are taken not to panic.  What the handler of a command does is a script, whose requests are
all that it asks of its interpreter; it runs no line and makes no call from within itself.

    e.covers command ↔ e is a filter whose scope is empty or holds the command
-/

namespace CommandShell

/-- What a filter sees of a call. -/
structure FilterRequest where
  command : String
  /-- The argument text after placeholders were replaced. -/
  rawArgs : String
  /-- The label of the calling session. -/
  session : String
  deriving DecidableEq

inductive Handler where
  | command (run : Arguments → Script Outcome)
  /-- A check, the reason shown when it says no, and the commands it covers; no commands means
  all of them. -/
  | filter (check : FilterRequest → Except ErrorChain Bool) (rejection : String)
      (scope : List String)
  | start (result : Except ErrorChain Unit)
  | stop (result : Except ErrorChain Unit)

inductive EntryKind where
  | command
  | filter
  | start
  | stop
  deriving DecidableEq

def Handler.kind : Handler → EntryKind
  | command _ => .command
  | filter _ _ _ => .filter
  | start _ => .start
  | stop _ => .stop

structure Entry where
  name : String
  aliases : List String
  category : String
  priority : Int
  /-- The name of the parsing strategy. -/
  strategy : String
  parameters : List Parameter
  description : Option String
  handler : Handler

namespace Entry

/-- An entry with nothing but a name and a handler. -/
def ofHandler (name : String) (handler : Handler) : Entry :=
  ⟨name, [], "default", 0, Strategy.defaultName, [], none, handler⟩

def kind (e : Entry) : EntryKind := e.handler.kind

def isCommand (e : Entry) : Bool := e.kind = .command

/-- Whether the entry is a filter for the command. -/
def covers (e : Entry) (command : String) : Bool :=
  match e.handler with
  | .filter _ _ scope => scope.isEmpty || scope.contains command
  | _ => false

/-- What is to be told about a command; ambient parameters are no matter of the caller. -/
def info (e : Entry) : CommandInfo where
  name := e.name
  aliases := e.aliases
  category := e.category
  usage := (e.parameters.filter fun p => !p.type.isAmbient).map Parameter.label
  description := e.description

end Entry

end CommandShell
