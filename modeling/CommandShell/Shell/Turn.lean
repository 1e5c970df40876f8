import CommandShell.Shell.Commands
/-!
# Turns of the shell

The shell takes one line at a time.  A turn runs the line and what background jobs can do without
waiting; the report of a turn says what goes to the two output streams.

    an answered line: what it printed, then its rendered result unless that is empty
    a failed line: what it printed, and the rendered failure behind `error: ` as an error
    a blank line: nothing
-/

namespace CommandShell

/-- What is written to the output and to the error stream. -/
structure Report where
  out : String
  err : String
  deriving DecidableEq

namespace Report

def empty : Report := ⟨"", ""⟩

/-- One report after the other. -/
def append (a b : Report) : Report := ⟨a.out ++ b.out, a.err ++ b.err⟩

/-- The report of a turn that printed a text and left a record. -/
def ofRecord (showDetail : Bool) (printed : String) : Option Record → Report
  | none => ⟨printed, ""⟩
  | some r =>
    let rendered := r.render showDetail
    if r.success then
      if rendered = "" then ⟨printed, ""⟩ else ⟨printed ++ rendered ++ "\n", ""⟩
    else ⟨printed, "error: " ++ rendered ++ "\n"⟩

end Report

namespace Shell

/-- The thread that reads the lines. -/
def reader : Thread := .caller 0

/-- How many steps the background jobs may take in one turn. -/
def patience : Nat := 1000000

/-- Goes on with a call while it waits for moments, and lets time pass for it. -/
def complete (i : Interpreter) : Nat → Called → World → Option Record × World
  | _, .blank, w => (none, w)
  | _, .finished r, w => (some r, w)
  | 0, .waiting _, w => (none, w)
  | fuel + 1, .waiting inv, w =>
    match inv.moment? with
    | none => (none, w)
    | some moment =>
      let (called, w) := (w.elapse i moment patience).runCall i reader inv
      complete i fuel called w

/-- Runs a line, and background jobs as far as they need not wait. -/
def runLine (i : Interpreter) (line : String) (w : World) : Option Record × World :=
  let (called, w) := w.execute i reader line
  let (record, w) := complete i patience called w
  (record, w.settle i patience)

/-- One turn: its report, and the world with nothing left on the terminal. -/
def turn (i : Interpreter) (line : String) (w : World) : Report × World :=
  let (record, w) := runLine i line w
  (.ofRecord i.settings.showDetail w.terminal record, { w with terminal := "" })

/-- Takes lines one after the other, up to one that asks to exit. -/
def turns (i : Interpreter) : List String → World → Report × World
  | [], w => (.empty, w)
  | line :: rest, w =>
    let (report, w) := turn i line w
    if w.exitRequested then (report, w)
    else
      let (later, w) := turns i rest w
      (report.append later, w)

/-- The world in which the shell takes its first line. -/
def started (i : Interpreter) (now : Timestamp) (seed : Nat) : World :=
  (World.start i (.initial i.settings now seed)).2

/-- The report of a whole session from start to shutdown. -/
def session (i : Interpreter) (lines : List String) (now : Timestamp) (seed : Nat) : Report :=
  let (report, w) := turns i lines (started i now seed)
  let (_, w) := w.shutdown i
  report.append ⟨w.terminal, ""⟩

end Shell

end CommandShell
