import CommandShell.Settings
/-!
# The command line

How the shell is started: which settings file it reads, what overrides the settings, and which
lines it takes.  Without lines on the command line it reads them from its input.

    linesOf text: the texts between line feeds, a carriage return before a line feed aside
-/

namespace CommandShell

open CommandShell.Text

structure StartOptions where
  /-- The settings file, in place of the usual one. -/
  config : Option String
  historyLimit : Option UInt64
  workers : Option UInt64
  showDetail : Bool
  /-- The lines to run; none of them means that the input is read. -/
  lines : List String
  deriving DecidableEq

inductive UsageError where
  | unexpected (argument : String)
  | valueMissing (option : String)
  | valueUnexpected (option value : String)
  | invalidValue (option value : String)
  | repeated (option : String)
  deriving DecidableEq

def UsageError.message : UsageError → String
  | unexpected argument => "error: unexpected argument '" ++ argument ++ "' found"
  | valueMissing option => "error: a value is required for '" ++ option ++ "'"
  | valueUnexpected option value =>
    "error: unexpected value '" ++ value ++ "' for '" ++ option ++ "' found"
  | invalidValue option value => "error: invalid value '" ++ value ++ "' for '" ++ option ++ "'"
  | repeated option => "error: the argument '" ++ option ++ "' cannot be used multiple times"

/-- What a command line asks for. -/
inductive CommandLine where
  | run (options : StartOptions)
  | help
  | version
  deriving DecidableEq

namespace CommandLine

def helpLines : List String :=
  ["Line-oriented command shell",
   "",
   "Usage: parley [OPTIONS]",
   "",
   "Options:",
   "      --config <PATH>      Settings file to use instead of the usual one",
   "      --history-limit <N>  Records kept per session",
   "      --workers <N>        Background jobs that may run at once",
   "      --show-detail        Show failures with all their causes",
   "  -c, --command <LINE>     Run these lines and exit instead of reading the input",
   "  -h, --help               Print help",
   "  -V, --version            Print version",
   ""]

def helpText : String := String.intercalate "\n" helpLines

def versionText : String := "parley 0.1.0\n"

/-- The status with which a faulty command line ends the program. -/
def usageStatus : Nat := 2

inductive OptionName where
  | config
  | historyLimit
  | workers
  | showDetail
  | command
  | help
  | version
  deriving DecidableEq

namespace OptionName

def all : List OptionName :=
  [config, historyLimit, workers, showDetail, command, help, version]

def long : OptionName → String
  | config => "config"
  | historyLimit => "history-limit"
  | workers => "workers"
  | showDetail => "show-detail"
  | command => "command"
  | help => "help"
  | version => "version"

def short? : OptionName → Option Char
  | command => some 'c'
  | help => some 'h'
  | version => some 'V'
  | _ => none

def takesValue : OptionName → Bool
  | config => true
  | historyLimit => true
  | workers => true
  | command => true
  | _ => false

/-- The option as messages name it. -/
def display (o : OptionName) : String := "--" ++ o.long

end OptionName

/-- Reads the number of an option that stands there once. -/
def number (option : OptionName) (current : Option UInt64) (value : String) :
    Except UsageError UInt64 :=
  match readWord? value.toList with
  | none => .error (.invalidValue option.display value)
  | some n => if current.isSome then .error (.repeated option.display) else .ok n.toUInt64

/-- The options with one more option that has a value. -/
def withValue (o : StartOptions) (option : OptionName) (value : String) :
    Except UsageError StartOptions :=
  match option with
  | .config =>
    if value = "" then .error (.valueMissing option.display)
    else if o.config.isSome then .error (.repeated option.display)
    else .ok { o with config := some value }
  | .historyLimit => (number option o.historyLimit value).map fun n => { o with historyLimit := some n }
  | .workers => (number option o.workers value).map fun n => { o with workers := some n }
  | .command => .ok { o with lines := o.lines ++ [value] }
  | _ => .error (.valueUnexpected option.display value)

/-- Whether an argument is written like an option and not like a value. -/
def looksLikeOption (argument : String) : Bool :=
  match argument.toList with
  | '-' :: _ :: _ => true
  | _ => false

/-- An argument taken apart: the option that it names, and the value written to it. -/
structure OptionWord where
  option : OptionName
  value : Option String

/-- Takes an argument apart.  What follows a letter is its value if it takes one; otherwise the
letter stands alone whatever follows. -/
def optionWord? (argument : String) : Option OptionWord :=
  match argument.toList with
  | '-' :: '-' :: body =>
    let (name, value) := match cutAt '=' body with
      | some (name, value) => (name, some (String.ofList value))
      | none => (body, none)
    (OptionName.all.find? fun o => o.long.toList = name).map fun o => ⟨o, value⟩
  | '-' :: letter :: rest =>
    (OptionName.all.find? fun o => o.short? = some letter).map fun o =>
      ⟨o, if o.takesValue then
          match rest with
          | [] => none
          | '=' :: value => some (String.ofList value)
          | _ => some (String.ofList rest)
        else none⟩
  | _ => none

/-- Reads arguments on top of the options that came before them.  Behind `--` there are no more
options, and nothing else is expected. -/
def readFrom (o : StartOptions) : List String → Except UsageError CommandLine
  | [] => .ok (.run o)
  | ["--"] => .ok (.run o)
  | "--" :: extra :: _ => .error (.unexpected extra)
  | argument :: rest =>
    match optionWord? argument with
    | none => .error (.unexpected argument)
    | some ⟨.help, none⟩ => .ok .help
    | some ⟨.version, none⟩ => .ok .version
    | some ⟨.showDetail, none⟩ =>
      if o.showDetail then .error (.repeated (OptionName.display .showDetail))
      else readFrom { o with showDetail := true } rest
    | some ⟨option, some value⟩ =>
      match withValue o option value with
      | .error e => .error e
      | .ok next => readFrom next rest
    | some ⟨option, none⟩ =>
      match rest with
      | [] => .error (.valueMissing option.display)
      | value :: rest =>
        if looksLikeOption value then .error (.valueMissing option.display)
        else
          match withValue o option value with
          | .error e => .error e
          | .ok next => readFrom next rest

/-- Reads the arguments of the program. -/
def read (arguments : List String) : Except UsageError CommandLine :=
  readFrom ⟨none, none, none, false, []⟩ arguments

end CommandLine

namespace StartOptions

/-- Where the settings file is. -/
def path (o : StartOptions) (env : Environment) : String := o.config.getD (Settings.path env)

/-- The settings: those of the file, overridden by the environment and then by the options. -/
def settings (o : StartOptions) (env : Environment) (file : Option String) : Settings :=
  let s := (Settings.load file).overridden env
  let s := match o.historyLimit with
    | some n => s.withHistoryLimit n
    | none => s
  let s := match o.workers with
    | some n => s.withWorkers n
    | none => s
  if o.showDetail then s.withDetail true else s

end StartOptions

/-- The lines of a text from the characters of the current one, last first.  A line feed ends a
line, and a carriage return before it does not count; the end of the text ends the last line if
there is any. -/
def linesFrom (current : List Char) : List Char → List String
  | [] => if current.isEmpty then [] else [String.ofList current.reverse]
  | c :: rest =>
    if c = '\n' then
      String.ofList (match current with
        | '\r' :: line => line.reverse
        | line => line.reverse) :: linesFrom [] rest
    else linesFrom (c :: current) rest

/-- The lines of a text. -/
def linesOf (text : String) : List String := linesFrom [] text.toList

end CommandShell
