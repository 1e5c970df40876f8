import CommandShell.CommandLine
import CommandShell.Shell.Turn
import Std.Time.DateTime.Timestamp
/-!
# The shell as a program

Reads the command line, the environment, the settings file and lines of input, and writes the
reports of the shell's turns.  What a line does is decided by `Shell.turn`; here it gets the time
of day, and what it sleeps is slept.
-/

namespace CommandShell.Program

def readEnvironment : IO Environment :=
  Settings.variableNames.filterMapM fun name => do
    return (← IO.getEnv name).map fun value => (name, value)

/-- The text of a file, if it can be read. -/
def readText (path : String) : IO (Option String) := do
  try
    return some (← IO.FS.readFile path)
  catch _ =>
    return none

/-- Milliseconds since 1970. -/
def clock : IO Timestamp := do
  return (← Std.Time.Timestamp.now).toMillisecondsSinceUnixEpoch.val.toNat

def write (report : Report) : IO Unit := do
  let out ← IO.getStdout
  let err ← IO.getStderr
  out.putStr report.out
  out.flush
  err.putStr report.err
  err.flush

/-- Sleeps for some milliseconds. -/
def pause (millis : Nat) : IO Unit := IO.sleep (min millis (Nat.pow 2 32 - 1)).toUInt32

/-- Takes a line at the time that it is, and sleeps as long as the line let time pass. -/
def takeLine (i : Interpreter) (line : String) (w : World) : IO World := do
  let before := w.elapse i (← clock) Shell.patience
  let (report, after) := Shell.turn i line before
  write report
  pause (after.now - before.now)
  return after

/-- Takes lines up to one that asks to exit. -/
def takeLines (i : Interpreter) : List String → World → IO World
  | [], w => return w
  | line :: rest, w => do
    let w ← takeLine i line w
    if w.exitRequested then return w else takeLines i rest w

/-- Takes lines from the input up to its end or to one that asks to exit. -/
partial def takeInput (i : Interpreter) (w : World) : IO World := do
  let input ← IO.getStdin
  if ← input.isTty then
    IO.print "parley> "
    (← IO.getStdout).flush
  let text ← input.getLine
  if text.isEmpty then return w
  else
    let w ← takeLines i (linesOf text) w
    if w.exitRequested then return w else takeInput i w

/-- A whole session with these options. -/
def run (options : StartOptions) : IO UInt32 := do
  let env ← readEnvironment
  let file ← readText (options.path env)
  let i := Shell.interpreter (options.settings env file)
  let now ← clock
  let w := Shell.started i now (now + (← IO.monoNanosNow))
  let w ← if options.lines.isEmpty then takeInput i w else takeLines i options.lines w
  let (_, w) := w.shutdown i
  write ⟨w.terminal, ""⟩
  return 0

end CommandShell.Program

def main (arguments : List String) : IO UInt32 := do
  match CommandShell.CommandLine.read arguments with
  | .ok (.run options) => CommandShell.Program.run options
  | .ok .help => CommandShell.Program.write ⟨CommandShell.CommandLine.helpText, ""⟩; return 0
  | .ok .version => CommandShell.Program.write ⟨CommandShell.CommandLine.versionText, ""⟩; return 0
  | .error e =>
    CommandShell.Program.write ⟨"", e.message ++ "\n"⟩
    return CommandShell.CommandLine.usageStatus.toUInt32
