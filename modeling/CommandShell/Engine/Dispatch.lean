import CommandShell.Engine.Answer
import CommandShell.Line.Placeholder
/-!
# Calls

A call goes through the same stages whichever way it is made: the filters are asked, the
arguments are found, the handler runs, and a record of the outcome is added to the session's
history.  `dispatch` starts from a line and `invoke` from values.

    a call that a filter turns away, or whose arguments do not parse, runs no handler
    a finished call adds exactly one record
-/

namespace CommandShell

open CommandShell.Text

/-- The first word of a line and the text behind it; a blank line has none. -/
def splitCommand (line : String) : Option (String × String) :=
  match trimStart line.toList with
  | [] => none
  | text =>
    match cutAtBlank text with
    | some (name, rest) => some (String.ofList name, String.ofList (trimStart rest))
    | none => some (String.ofList text, "")

/-- The value for an ambient type: the console of the call, or a preset. -/
def Interpreter.preset (i : Interpreter) (console : Console) (name : String) : Option Value :=
  if name = ValueType.consoleName then some (.console console) else Assoc.get? name i.presets

/-- The script of a handler, ending with what the record will hold. -/
def handlerScript (e : Entry) (args : Arguments) : Script (Except Failure Json) :=
  match e.handler with
  | .command run => (run args).mapResult (Outcome.result args.command)
  | _ => .done (.ok .null)

/-- The arguments that a text gives to a command. -/
def Interpreter.parse (i : Interpreter) (e : Entry) (rawArgs : String) (console : Console)
    (order : TableOrder) : Except ParseFailure (List Value) :=
  match i.registry.strategyOf? e with
  | none => .error (.strategyMismatch e.strategy "strategy is not registered")
  | some s => s.parse e.parameters rawArgs ⟨i.coercions, i.preset console, order⟩

/-- Values as an argument text: their JSON texts, strings as they are, joined by spaces. -/
def valuesText (values : List Value) : String :=
  Line.joined (values.map fun v => String.ofList (Line.insertText v.toJson))

namespace World

/-- A call that is made now. -/
def newCall (i : Interpreter) (session : Nat) (typed rawArgs : String) (w : World) : Call :=
  ⟨session, typed, i.registry.command? typed, rawArgs, w.now⟩

/-- What filters see of a call. -/
def filterRequest (i : Interpreter) (call : Call) (w : World) : FilterRequest :=
  ⟨i.registry.canonicalName call.typed, call.rawArgs, (w.session call.session).label⟩

/-- Begins a call in a session: asks the filters, finds the arguments and takes up the script of
the handler.  A call that fails before its handler has a script that is at its end. -/
def beginCall (i : Interpreter) (session : Nat) (typed rawArgs : String)
    (arguments : Entry → Except ParseFailure (List Value)) (w : World) : Invocation × World :=
  let entry := i.registry.find typed
  let call := w.newCall i session typed rawArgs
  let request := w.filterRequest i call
  let (events, rejection) := i.registry.runFilters request
  let w := w.log events
  match rejection with
  | some failure => (⟨call, .done (.error failure)⟩, w)
  | none =>
    match arguments entry with
    | .error cause => (⟨call, .done (.error (.parse cause))⟩, w)
    | .ok values =>
      let args : Arguments := ⟨request.command, values⟩
      (⟨call, handlerScript entry args⟩, w.log [.invoked call args])

/-- Begins the call that a line makes in a session; a blank line makes none. -/
def beginLine (i : Interpreter) (session : Nat) (line : String) (console : Console) (w : World) :
    Option (Invocation × World) :=
  match splitCommand line with
  | none => none
  | some (typed, rest) =>
    let (rawArgs, chance) := Line.substitute (w.session session).getVariable rest w.chance
    some (beginCall i session typed rawArgs (fun e => i.parse e rawArgs console w.order)
      { w with chance := chance })

/-- Ends a call: adds its record to the history of its session. -/
def finishCall (inv : Invocation) (outcome : Except Failure Json) (w : World) : Record × World :=
  let record := inv.record w.now outcome
  (record, w.modifySession inv.session fun s => s.push record)

end World

/-- What becomes of a call: a blank line is none; a handler may be waiting. -/
inductive Called where
  | blank
  | finished (r : Record)
  | waiting (inv : Invocation)

namespace World

/-- Runs a call that was begun. -/
def runCall (i : Interpreter) (th : Thread) (inv : Invocation) (w : World) : Called × World :=
  match inv.script.run i th w with
  | (.finished outcome, w) =>
    let (record, w) := w.finishCall inv outcome
    (.finished record, w)
  | (.waiting rest, w) => (.waiting { inv with script := rest }, w)

/-- Runs a line in a session, with the thread acting where it acts. -/
def dispatch (i : Interpreter) (th : Thread) (session : Nat) (line : String) (console : Console)
    (w : World) : Called × World :=
  match w.beginLine i session line console with
  | none => (.blank, w)
  | some (inv, w) => w.runCall i th inv

/-- Runs a line in the session of a thread, printing on the terminal. -/
def execute (i : Interpreter) (th : Thread) (line : String) (w : World) : Called × World :=
  let (n, w) := w.current th
  w.dispatch i th n line .terminal

/-- Runs a line in the session of a key. -/
def executeAs (i : Interpreter) (th : Thread) (key : SessionKey) (line : String) (w : World) :
    Called × World :=
  w.runAs th key (execute i th line)

/-- Calls a command with values in the session of a thread. -/
def invoke (i : Interpreter) (th : Thread) (name : String) (values : List Value) (w : World) :
    Called × World :=
  let (n, w) := w.current th
  let (inv, w) := w.beginCall i n name (valuesText values) fun _ => .ok values
  w.runCall i th inv

end World

end CommandShell
