import CommandShell.Json.Reading
import CommandShell.Json.Text
import CommandShell.Literal.Scalar
import CommandShell.Path
/-!
# Settings

The limits an interpreter runs with.  They are read from a JSON file, overridden by environment
variables and changed by setters; `Settings.saved` writes them back.

    1 ≤ (normalize s).workers ∧ 1 ≤ (normalize s).outputLimit
    ofText? (saved s) = some s
-/

namespace CommandShell

open CommandShell.Text CommandShell.Json

structure Settings where
  /-- Records kept for each session. -/
  historyLimit : UInt64
  /-- Background jobs that may run at once. -/
  workers : UInt64
  /-- Whether failures are shown with all their causes. -/
  showDetail : Bool
  /-- Lines of output kept for each background task. -/
  outputLimit : UInt64
  deriving DecidableEq

/-- Environment variables with their values. -/
abbrev Environment := List (String × String)

namespace Settings

def default : Settings := ⟨100, 4, false, 10000⟩

instance : Inhabited Settings := ⟨default⟩

/-- Raises a worker count and an output limit of zero to one. -/
def normalize (s : Settings) : Settings :=
  { s with
    workers := if s.workers = 0 then 1 else s.workers
    outputLimit := if s.outputLimit = 0 then 1 else s.outputLimit }

/-! ## Reading -/

inductive Field where
  | historyLimit
  | workers
  | showDetail
  | outputLimit
  deriving DecidableEq

/-- The fields in the order in which they are written. -/
def Field.all : List Field := [.historyLimit, .workers, .showDetail, .outputLimit]

def Field.name : Field → String
  | .historyLimit => "history_limit"
  | .workers => "worker_threads"
  | .showDetail => "show_failure_detail"
  | .outputLimit => "task_output_limit"

/-- The field of that name. -/
def Field.named? (name : String) : Option Field := Field.all.find? fun f => f.name = name

/-- Reads a whole number below 2 ^ 64 written without a fraction or an exponent. -/
def wordOf? : Document → Option UInt64
  | .numeral n =>
    match n.value? with
    | some (.integer k) => if 0 ≤ k then some k.toNat.toUInt64 else none
    | _ => none
  | _ => none

def boolOf? : Document → Option Bool
  | .bool b => some b
  | _ => none

/-- The settings with one field read from a document. -/
def set? (s : Settings) (d : Document) : Field → Option Settings
  | .historyLimit => (wordOf? d).map fun n => { s with historyLimit := n }
  | .workers => (wordOf? d).map fun n => { s with workers := n }
  | .showDetail => (boolOf? d).map fun b => { s with showDetail := b }
  | .outputLimit => (wordOf? d).map fun n => { s with outputLimit := n }

/-- Reads named fields.  A field may come once; names that are no field are skipped with their
value, whatever it is. -/
def setNamed? (seen : List Field) (s : Settings) :
    List (List Piece × Document) → Option Settings
  | [] => some s
  | (name, d) :: rest =>
    match stringOf? name with
    | none => none
    | some name =>
      match Field.named? name with
      | none => setNamed? seen s rest
      | some f =>
        if f ∈ seen then none
        else (s.set? d f).bind fun next => setNamed? (f :: seen) next rest

/-- Reads fields by their place; there may be too few, not too many. -/
def setInOrder? (s : Settings) : List Field → List Document → Option Settings
  | _, [] => some s
  | [], _ :: _ => none
  | f :: others, d :: rest => (s.set? d f).bind fun next => setInOrder? next others rest

/-- Reads settings from an object with some of the fields, or from an array that begins with
their values; what is missing has its default. -/
def ofDocument? : Document → Option Settings
  | .object named => setNamed? [] default named
  | .array items => setInOrder? default Field.all items
  | _ => none

/-- Reads settings from a JSON text as they stand there. -/
def ofText? (text : String) : Option Settings := (Document.parse? text.toList).bind ofDocument?

/-- The settings in a file, normalized; the default without a file or with a faulty one. -/
def load (file : Option String) : Settings :=
  match file.bind ofText? with
  | some s => s.normalize
  | none => default

/-! ## Changing -/

def withHistoryLimit (s : Settings) (n : UInt64) : Settings :=
  { s with historyLimit := n }.normalize

def withWorkers (s : Settings) (n : UInt64) : Settings := { s with workers := n }.normalize

def withDetail (s : Settings) (shown : Bool) : Settings := { s with showDetail := shown }

def historyLimitVariable : String := "PARLEY_HISTORY_LIMIT"

def workersVariable : String := "PARLEY_WORKERS"

def showDetailVariable : String := "PARLEY_SHOW_FAILURE_DETAIL"

def pathVariable : String := "PARLEY_CONFIG_PATH"

/-- The environment variables that settings depend on. -/
def variableNames : List String :=
  ["HOME", "XDG_CONFIG_HOME", pathVariable, historyLimitVariable, workersVariable,
    showDetailVariable]

/-- The number that an environment variable holds, blanks around it aside. -/
def numberIn? (env : Environment) (name : String) : Option UInt64 :=
  ((Assoc.get? name env).bind fun v => readWord? (trim v.toList)).map Nat.toUInt64

/-- The settings with what the environment variables override; a variable that does not read is
passed over. -/
def overridden (s : Settings) (env : Environment) : Settings :=
  let detail := (Assoc.get? showDetailVariable env).bind fun v => Literal.readBool? v.toList
  { s with
    historyLimit := (numberIn? env historyLimitVariable).getD s.historyLimit
    workers := (numberIn? env workersVariable).getD s.workers
    showDetail := detail.getD s.showDetail }.normalize

/-! ## Writing -/

def fieldValue (s : Settings) : Field → Json
  | .historyLimit => Json.ofNat s.historyLimit.toNat
  | .workers => Json.ofNat s.workers.toNat
  | .showDetail => .bool s.showDetail
  | .outputLimit => Json.ofNat s.outputLimit.toNat

/-- The settings as a JSON value. -/
def toJson (s : Settings) : Json := Json.object (Field.all.map fun f => (f.name, s.fieldValue f))

/-- The text of a settings file: the fields in their own order, not by name, one a line. -/
def saved (s : Settings) : String :=
  (Json.fields (Field.all.map fun f => (f.name, s.fieldValue f))).pretty

/-! ## Where the file is -/

/-- The home directory that the environment names. -/
def home? (env : Environment) : Option (List Char) :=
  ((Assoc.get? "HOME" env).filter fun h => h ≠ "").map String.toList

/-- The directory for configuration files: an absolute `XDG_CONFIG_HOME`, else `.config` in the
home directory. -/
def configDirectory? (env : Environment) : Option (List Char) :=
  match (Assoc.get? "XDG_CONFIG_HOME" env).filter fun d => Path.isAbsolute d.toList with
  | some d => some d.toList
  | none => (home? env).map fun h => Path.join h ".config".toList

/-- The path of the settings file: the one a variable names, unless it is blank, else the file in
the configuration directory. -/
def path (env : Environment) : String :=
  match (Assoc.get? pathVariable env).filter fun p => !allBlank p.toList with
  | some p => String.ofList (Path.expandTilde (home? env) p.toList)
  | none =>
    let directory := (configDirectory? env).getD ['.']
    String.ofList (Path.join (Path.join directory "parley".toList) "config.json".toList)

end Settings

end CommandShell
