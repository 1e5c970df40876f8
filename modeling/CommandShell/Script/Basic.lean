import CommandShell.Task.Index
import CommandShell.Value.Arguments
/-!
# Scripts of handlers

A handler does not act on the world itself: it is a finite tree of requests, each with a branch
for every reply, that ends in a result.  Whoever runs a script answers its requests, all at once
or one by one between those of other scripts.

    (Script.ask r).bind k = the script that requests r and goes on with k
-/

namespace CommandShell

inductive SubmitError where
  | emptyLine
  | stopped
  deriving DecidableEq

def SubmitError.message : SubmitError → String
  | emptyLine => "cannot submit an empty command line"
  | stopped => "the task runner has shut down"

/-- What is to be told about a registered command. -/
structure CommandInfo where
  name : String
  aliases : List String
  category : String
  /-- The labels of the parameters that a line has to give. -/
  usage : List String
  description : Option String

/-- What a running handler may ask for.  All but printing and waiting is about the session that is
current where the handler runs. -/
inductive Request where
  | print (console : Console) (text : String)
  /-- The label of the session; asking for it makes no session. -/
  | sessionLabel
  | getVariable (name : String)
  | setVariable (name : String) (value : Json)
  | vars
  | history (query : HistoryQuery)
  | submit (task line : String)
  | tasks
  | clearTasks (onlyDone : Bool)
  | output (task : String) (last : Int)
  | commands
  | exit
  | clock
  /-- Waits until that moment. -/
  | sleepUntil (moment : Timestamp)
  /-- Waits until the gate of that name is open. -/
  | pass (gate : String)

/-- What is answered to a request. -/
def Request.Reply : Request → Type
  | print _ _ => Unit
  | sessionLabel => String
  | getVariable _ => Option Json
  | setVariable _ _ => Option Json
  | vars => List (String × Json)
  | history _ => List Json
  | submit _ _ => Except SubmitError Nat
  | tasks => List TaskSummary
  | clearTasks _ => Nat
  | output _ _ => Option (List String)
  | commands => List CommandInfo
  | exit => Unit
  | clock => Timestamp
  | sleepUntil _ => Unit
  | pass _ => Unit

inductive Script (α : Type) where
  | done (result : α)
  | request (r : Request) (next : r.Reply → Script α)

namespace Script

/-- The script that makes one request and ends with the reply. -/
def ask (r : Request) : Script r.Reply := .request r .done

/-- The first script, then the one that its result chooses. -/
def bind {α β : Type} : Script α → (α → Script β) → Script β
  | done a, f => f a
  | request r next, f => request r fun reply => (next reply).bind f

instance : Monad Script where
  pure := done
  bind := bind

/-- The script with its result changed. -/
def mapResult {α β : Type} (f : α → β) : Script α → Script β
  | done a => done (f a)
  | request r next => request r fun reply => (next reply).mapResult f

end Script

/-- How a handler ends: with an answer, an error, or a panic, of which only a text is known. -/
inductive Outcome where
  | answered (v : Json)
  | failed (e : ErrorChain)
  | panicked (text : Option String)

namespace Outcome

/-- An outcome that is an error without a cause. -/
def error (message : String) : Outcome := failed (.single message)

/-- The outcome of a command as its record holds it. -/
def result (command : String) : Outcome → Except Failure Json
  | answered v => .ok v
  | failed e => .error (.ofError command e)
  | panicked text =>
    .error (.handler command ("panicked: " ++ text.getD "unknown panic payload") "")

end Outcome

/-- Goes on with an argument, or ends with the error of a faulty access. -/
def withArgument {α : Type} (a : Except ArgumentError α) (go : α → Script Outcome) :
    Script Outcome :=
  match a with
  | .ok a => go a
  | .error e => .done (.error e.message)

end CommandShell
