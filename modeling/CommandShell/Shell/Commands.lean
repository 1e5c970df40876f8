import CommandShell.Engine.Pool
/-!
# The commands of the shell

What a line of the shell can say, by category: printing and waiting, arithmetic, session variables
and history, background tasks, and the shell itself.

    set x v; get x answers v, if v is the compact text of a JSON value that quoting leaves alone
-/

namespace CommandShell.Shell

open CommandShell.Text

/-- A script that ends with an answer. -/
def answer (v : Json) : Script Outcome := .done (.answered v)

/-- A script that ends with an error. -/
def fail (message : String) : Script Outcome := .done (.error message)

/-- A command with a category, a strategy, a description and parameters. -/
def command (name category strategy : String) (description : Option String)
    (parameters : List Parameter) (run : Arguments → Script Outcome) : Entry :=
  { Entry.ofHandler name (.command run) with
    category := category
    strategy := strategy
    description := description
    parameters := Parameter.indexed parameters }

/-! ## Printing and arithmetic -/

def runEcho (args : Arguments) : Script Outcome :=
  withArgument (args.console 0) fun console =>
  withArgument (args.str 1) fun text =>
  (Script.ask (.print console (text ++ "\n"))).bind fun _ => answer .null

def echo : Entry :=
  command "echo" "io" Strategy.rawName (some "Print the rest of the line")
    [.ofType .console, .named "text" .str] runEcho

def runAdd (args : Arguments) : Script Outcome :=
  withArgument (args.int 0) fun left =>
  withArgument (args.int 1) fun right =>
  let sum := left.toInt + right.toInt
  if -(Nat.pow 2 63 : Int) ≤ sum ∧ sum < Nat.pow 2 63 then answer (.integer sum)
  else fail (intText left.toInt ++ " + " ++ intText right.toInt ++ " overflows")

def add : Entry :=
  command "add" "math" Strategy.positionalName (some "Add two integers")
    [{ Parameter.named "left" .int with required := true },
     { Parameter.named "right" .int with required := true }] runAdd

/-- The sum of the numbers among some values; of no numbers it is minus zero. -/
def total (values : List Value) : Float := (values.filterMap Value.float?).foldl (· + ·) (-0.0)

def runSum (args : Arguments) : Script Outcome :=
  withArgument (args.list 0) fun values => answer (Json.ofFloat (total values))

def sum : Entry :=
  command "sum" "math" Strategy.collectionName (some "Sum a list such as [1, 2.5, 3]")
    [{ Parameter.named "values" (.list .float) with required := true }] runSum

def runSleep (args : Arguments) : Script Outcome :=
  withArgument (args.int 0) fun millis =>
  if millis.toInt < 0 then fail "duration must not be negative"
  else
    (Script.ask .clock).bind fun (now : Timestamp) =>
    (Script.ask (.sleepUntil (now + millis.toInt.toNat))).bind fun _ => answer .null

def sleep : Entry :=
  command "sleep" "io" Strategy.defaultName (some "Block for the given number of milliseconds")
    [{ Parameter.named "millis" .int with default := some "1000" }] runSleep

/-! ## Session -/

/-- What a text is stored as: the value that it writes in JSON, else the text itself. -/
def literal (text : String) : Json := (Json.parse? text).getD (.string text)

def runSet (args : Arguments) : Script Outcome :=
  withArgument (args.str 0) fun name =>
  withArgument (args.str 1) fun text =>
  (Script.ask (.setVariable name (literal text))).bind fun _ => answer .null

def set : Entry :=
  command "set" "session" Strategy.defaultName
    (some "Store a session variable for $\x7bname\x7d placeholders")
    [{ Parameter.named "name" .str with required := true },
     { Parameter.named "value" .str with required := true, joint := true }] runSet

def runGet (args : Arguments) : Script Outcome :=
  withArgument (args.str 0) fun name =>
  (Script.ask (.getVariable name)).bind fun (found : Option Json) =>
    match found with
    | some v => answer v
    | none => fail ("no variable named " ++ name)

def get : Entry :=
  command "get" "session" Strategy.defaultName none
    [{ Parameter.named "name" .str with required := true }] runGet

def runVars (_ : Arguments) : Script Outcome :=
  (Script.ask .vars).bind fun found => answer (Json.object found)

def vars : Entry :=
  command "vars" "session" Strategy.defaultName (some "List session variables") [] runVars

/-- The texts among the values of a list; anything else has none. -/
def textsOf (fields : Except ArgumentError (List Value)) : List String :=
  match fields with
  | .ok values => values.filterMap Value.str?
  | .error _ => []

def runRecent (args : Arguments) : Script Outcome :=
  withArgument (args.int 1) fun limit =>
  withArgument (args.str? 0) fun name =>
  (Script.ask (.history ⟨name, some limit.toInt.toNat, textsOf (args.list 2)⟩)).bind
    fun (found : List Json) => answer (.array found)

def recent : Entry :=
  command "recent" "session" Strategy.defaultName
    (some "Show recent invocations, newest first")
    [{ Parameter.flag "command" .str with short := some 'c' },
     { Parameter.flag "limit" .int with short := some 'n', default := some "10" },
     { Parameter.flag "fields" (.list .str) with short := some 'f' }] runRecent

/-! ## Background tasks -/

def runBg (args : Arguments) : Script Outcome :=
  withArgument (args.str 0) fun text =>
  match cutAtBlank (trim text.toList) with
  | none => fail "usage: bg <task> <command line>"
  | some (name, rest) =>
    let task := String.ofList name
    (Script.ask (.submit task (String.ofList (trim rest)))).bind
      fun (submitted : Except SubmitError Nat) =>
        match submitted with
        | .ok generation =>
          answer (Json.object [("task", .string task), ("generation", Json.ofNat generation)])
        | .error e => fail e.message

def bg : Entry :=
  command "bg" "tasks" Strategy.rawName (some "Run a command line as a named background task")
    [.named "line" .str] runBg

def runTasks (args : Arguments) : Script Outcome :=
  withArgument (args.bool 0) fun clear =>
  withArgument (args.bool 1) fun onlyDone =>
  if clear || onlyDone then
    (Script.ask (.clearTasks onlyDone)).bind fun (removed : Nat) =>
      answer (Json.object [("removed", Json.ofNat removed)])
  else
    (Script.ask .tasks).bind fun (found : List TaskSummary) =>
      answer (.array (found.map TaskSummary.toJson))

def tasks : Entry :=
  command "tasks" "tasks" Strategy.defaultName
    (some "List tasks, or clear them with --clear / --done")
    [.flag "clear" .bool, { Parameter.flag "done" .bool with short := some 'd' }] runTasks

def runLog (args : Arguments) : Script Outcome :=
  withArgument (args.str 0) fun name =>
  withArgument (args.int 1) fun last =>
  (Script.ask (.output name last.toInt)).bind fun (found : Option (List String)) =>
    match found with
    | some lines => answer (.string (String.intercalate "\n" lines))
    | none => fail ("no task named " ++ name)

def log : Entry :=
  { command "log" "tasks" Strategy.defaultName
      (some "Show captured task output; a negative count shows everything")
      [{ Parameter.named "task" .str with required := true },
       { Parameter.flag "lines" .int with short := some 'n', default := some "-1" }] runLog with
    aliases := ["output"] }

/-! ## The shell itself -/

/-- A command as the help shows it. -/
def describe (c : CommandInfo) : Json :=
  Json.object
    [("name", .string c.name), ("aliases", .array (c.aliases.map .string)),
     ("usage", .string (Line.joined c.usage)), ("description", Json.ofText? c.description)]

/-- The commands of each category. -/
def helpText (commands : List CommandInfo) : Json :=
  Json.object (commands.map fun c =>
    (c.category, .array ((commands.filter fun d => d.category = c.category).map describe)))

def runHelp (_ : Arguments) : Script Outcome :=
  (Script.ask .commands).bind fun found => answer (helpText found)

def help : Entry :=
  { command "help" "shell" Strategy.defaultName (some "List commands by category") [] runHelp with
    aliases := ["?"] }

def runExit (_ : Arguments) : Script Outcome := (Script.ask .exit).bind fun _ => answer .null

def exit : Entry :=
  { command "exit" "shell" Strategy.defaultName none [] runExit with aliases := ["quit"] }

def banner : Entry := Entry.ofHandler "banner" (.start (.ok ()))

/-- Every entry in the order of registration. -/
def entries : List Entry :=
  [echo, add, sum, sleep, set, get, vars, recent, bg, tasks, log, help, exit, banner]

def registry : Registry := Registry.ofEntries Strategy.builtin entries

/-- The interpreter of the shell. -/
def interpreter (settings : Settings) : Interpreter :=
  ⟨settings, registry, .builtin, []⟩

end CommandShell.Shell
