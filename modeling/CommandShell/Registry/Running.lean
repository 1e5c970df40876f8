import CommandShell.Registry.Basic
/-!
# Running filters and lifecycle handlers

Filters run up to the first that does not allow the call, handlers of the start up to the first
that fails, handlers of the stop all of them.  Each run also says what ran, in order.
-/

namespace CommandShell

/-- A call: what was called in which session, with which text, and when. -/
structure Call where
  /-- The number of the session that the record goes to. -/
  session : Nat
  /-- The command as it was called. -/
  typed : String
  /-- The command that this leads to; an unknown name leads to none. -/
  entry? : Option Entry
  /-- The argument text after placeholders were replaced. -/
  rawArgs : String
  begunAt : Timestamp

/-- The record of a call that comes to its outcome at a moment.  It is opened at that moment and
bears its time; only how long the call took is counted from its beginning. -/
def Call.record (c : Call) (now : Timestamp) (outcome : Except Failure Json) : Record :=
  ⟨c.typed, c.rawArgs, now, now - c.begunAt, outcome⟩

/-- Something that ran. -/
inductive Event where
  | filtered (filter : String) (request : FilterRequest)
  | invoked (call : Call) (args : Arguments)
  | started (name : String)
  | stopped (name : String)

/-- A handler of the start or of the stop that failed. -/
structure LifecycleFailure where
  name : String
  cause : ErrorChain
  deriving DecidableEq

namespace LifecycleFailure

def startMessage (f : LifecycleFailure) : String :=
  "init handler " ++ f.name ++ " failed: " ++ f.cause.message

def stopMessage (f : LifecycleFailure) : String :=
  "destroy handler " ++ f.name ++ " failed: " ++ f.cause.message

end LifecycleFailure

namespace Registry

/-- What a filter says about a call: nothing if it allows it, else the reason. -/
def verdict (e : Entry) (request : FilterRequest) : Option Failure :=
  match e.handler with
  | .filter check rejection _ =>
    match check request with
    | .ok true => none
    | .ok false => some (.rejected e.name rejection)
    | .error error => some (.rejected e.name error.message)
  | _ => none

/-- Runs filters up to the first that turns the call away. -/
def runChain (request : FilterRequest) : List Entry → List Event × Option Failure
  | [] => ([], none)
  | e :: rest =>
    match verdict e request with
    | some failure => ([.filtered e.name request], some failure)
    | none =>
      let (events, failure) := runChain request rest
      (.filtered e.name request :: events, failure)

/-- Runs the filters for a call. -/
def runFilters (r : Registry) (request : FilterRequest) : List Event × Option Failure :=
  runChain request (r.filterChain request.command)

/-- Runs handlers of the start up to the first that fails. -/
def startChain : List Entry → List Event × Option LifecycleFailure
  | [] => ([], none)
  | e :: rest =>
    match e.handler with
    | .start (.error cause) => ([.started e.name], some ⟨e.name, cause⟩)
    | .start (.ok _) =>
      let (events, failure) := startChain rest
      (.started e.name :: events, failure)
    | _ => startChain rest

/-- Runs the handlers of the start by priority, up to the first that fails. -/
def startAll (r : Registry) : List Event × Option LifecycleFailure :=
  startChain (r.byPriority .start)

/-- Runs handlers of the stop and collects those that fail. -/
def stopChain : List Entry → List Event × List LifecycleFailure
  | [] => ([], [])
  | e :: rest =>
    let (events, failures) := stopChain rest
    match e.handler with
    | .stop (.error cause) => (.stopped e.name :: events, ⟨e.name, cause⟩ :: failures)
    | .stop (.ok _) => (.stopped e.name :: events, failures)
    | _ => (events, failures)

/-- Runs all handlers of the stop by priority. -/
def stopAll (r : Registry) : List Event × List LifecycleFailure :=
  stopChain (r.byPriority .stop)

end Registry

end CommandShell
