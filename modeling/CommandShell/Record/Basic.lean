import CommandShell.Json.Text
import CommandShell.Record.Failure
import CommandShell.Record.Timestamp
/-!
# Records of calls

Every call leaves a record: what was called with which argument text, when it was over, how long it
took and how it ended.  Whether a record has succeeded, its result and its failure are never set one
by one: a record is completed once, from the outcome of its call, before anybody sees it.  So it
holds that outcome, and the three are read off it: it has succeeded if and only if it has no
failure, and only a success has a result.

    (query q h) = the projections of the newest matching records
-/

namespace CommandShell

structure Record where
  /-- The command as it was called, by its name or by an alias. -/
  command : String
  /-- The argument text after placeholders were replaced. -/
  rawArgs : String
  /-- When the record was opened, which is when the call had come to its outcome. -/
  startedAt : Timestamp
  /-- Milliseconds. -/
  elapsed : Nat
  outcome : Except Failure Json

namespace Record

def success (r : Record) : Bool :=
  match r.outcome with
  | .ok _ => true
  | .error _ => false

/-- What the handler answered; null after a failure. -/
def result (r : Record) : Json :=
  match r.outcome with
  | .ok v => v
  | .error _ => .null

def failure? (r : Record) : Option Failure :=
  match r.outcome with
  | .ok _ => none
  | .error f => some f

theorem success_iff (r : Record) : r.success = true ↔ r.failure? = none := by
  unfold success failure?
  cases r.outcome <;> simp

theorem result_of_failure {r : Record} (h : r.failure? ≠ none) : r.result = .null := by
  unfold failure? at h
  unfold result
  cases houtcome : r.outcome with
  | ok v => simp [houtcome] at h
  | error f => rfl

theorem failure?_of_error {r : Record} {f : Failure} (h : r.outcome = .error f) :
    r.failure? = some f := by
  simp only [failure?, h]

/-- A failure as records show it. -/
def failureJson : Option Failure → Json
  | none => .null
  | some f => Json.object [("kind", .string f.kind), ("message", .string f.message)]

/-- The record as a JSON object. -/
def toJson (r : Record) : Json :=
  Json.object
    [("command", .string r.command), ("raw_args", .string r.rawArgs),
     ("started_at", .string r.startedAt.text), ("elapsed_ms", Json.ofNat r.elapsed),
     ("success", .bool r.success), ("result", r.result), ("failure", failureJson r.failure?)]

/-- A result as it is shown: null as nothing, text as it is, other values over several lines. -/
def renderResult : Json → String
  | .null => ""
  | .string s => s
  | v => v.pretty

/-- What the caller is shown: the result, or the failure with its detail if that is wanted. -/
def render (showDetail : Bool) (r : Record) : String :=
  match r.failure? with
  | none => renderResult r.result
  | some f =>
    match f.detail? with
    | some detail => if showDetail then f.message ++ "\n" ++ detail else f.message
    | none => f.message

end Record

/-- Which records of a history are wanted, and which of their fields. -/
structure HistoryQuery where
  /-- Only records of calls by this name. -/
  command : Option String
  /-- At most this many. -/
  limit : Option Nat
  /-- These fields; all of them if none is named. -/
  fields : List String
  deriving DecidableEq

namespace HistoryQuery

/-- Every record with every field. -/
def all : HistoryQuery := ⟨none, none, []⟩

def wants (q : HistoryQuery) (r : Record) : Bool := q.command.all (· = r.command)

/-- A record with the wanted fields; a field it does not have is null. -/
def project (q : HistoryQuery) (r : Record) : Json :=
  if q.fields.isEmpty then r.toJson
  else Json.object (q.fields.map fun name => (name, (r.toJson.get? name).getD .null))

/-- The wanted records of a history, which is oldest first, as JSON objects newest first. -/
def run (q : HistoryQuery) (history : List Record) : List Json :=
  let matching := history.reverse.filter q.wants
  (match q.limit with
    | none => matching
    | some n => matching.take n).map q.project

end HistoryQuery

end CommandShell
