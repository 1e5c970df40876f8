import CommandShell.Record.Basic
import CommandShell.Task.Capture
/-!
# The tasks of a session

A task index numbers the tasks of a session in the order of their submission.  Of each name the
newest task is live; a task whose name is taken over is retired.  Tasks taken off the index go on
running and stay known by their number: whoever holds the number can still print to them,
complete them and look at them.

    open name: the live task of that name retires, the new one is live
    clear onlyDone: takes completed tasks off the index, or all of them
-/

namespace CommandShell

inductive TaskStatus where
  | running
  | done
  deriving DecidableEq

def TaskStatus.label : TaskStatus → String
  | running => "running"
  | done => "done"

/-- How a task ended, and after how many milliseconds. -/
structure Completion where
  record : Record
  elapsed : Nat

structure Task where
  name : String
  /-- Its number among the tasks of its session, from one. -/
  generation : Nat
  line : String
  submittedAt : Timestamp
  output : Capture
  completion : Option Completion

namespace Task

def isDone (t : Task) : Bool := t.completion.isSome

def status (t : Task) : TaskStatus := if t.isDone then .done else .running

/-- The record of the finished task. -/
def record? (t : Task) : Option Record := t.completion.map (·.record)

/-- Milliseconds from submission to completion, or to now. -/
def elapsed (t : Task) (now : Timestamp) : Nat :=
  match t.completion with
  | some c => c.elapsed
  | none => now - t.submittedAt

/-- The task with a text printed to its output. -/
def print (t : Task) (text : String) : Task := { t with output := t.output.write text }

/-- The task with its record.  Only the first record counts. -/
def complete (t : Task) (record : Record) (now : Timestamp) : Task :=
  if t.isDone then t
  else
    { t with
      output := t.output.finish
      completion := some ⟨record, now - t.submittedAt⟩ }

end Task

/-- A task as it is listed. -/
structure TaskSummary where
  name : String
  generation : Nat
  status : TaskStatus
  elapsed : Nat
  live : Bool
  deriving DecidableEq

def TaskSummary.toJson (s : TaskSummary) : Json :=
  Json.object
    [("name", .string s.name), ("generation", Json.ofNat s.generation),
     ("status", .string s.status.label), ("elapsed_ms", Json.ofNat s.elapsed),
     ("live", .bool s.live)]

def Task.summary (t : Task) (now : Timestamp) (live : Bool) : TaskSummary :=
  ⟨t.name, t.generation, t.status, t.elapsed now, live⟩

structure TaskIndex where
  /-- Every task ever opened: the one of generation `g` is the `g`-th. -/
  tasks : List Task
  /-- The generations of the live tasks, ascending. -/
  live : List Nat
  /-- The generations of the retired tasks, in the order in which they retired. -/
  retired : List Nat

namespace TaskIndex

def empty : TaskIndex := ⟨[], [], []⟩

/-- The task of a generation, on the index or not. -/
def task? (x : TaskIndex) (generation : Nat) : Option Task :=
  if generation = 0 then none else x.tasks[generation - 1]?

/-- Whether the task of a generation has that name. -/
def isNamed (x : TaskIndex) (name : String) (generation : Nat) : Bool :=
  (x.task? generation).any fun t => t.name = name

/-- Whether the task of a generation is completed. -/
def isDone (x : TaskIndex) (generation : Nat) : Bool := (x.task? generation).any Task.isDone

/-- The generation of the live task of a name. -/
def liveGeneration? (x : TaskIndex) (name : String) : Option Nat := x.live.find? (x.isNamed name)

/-- The live task of a name. -/
def get? (x : TaskIndex) (name : String) : Option Task := (x.liveGeneration? name).bind x.task?

/-- Opens a task: its generation, and the index with it in the place of a live one of the same
name. -/
def submit (x : TaskIndex) (name line : String) (outputLimit : Nat) (now : Timestamp) :
    Nat × TaskIndex :=
  let generation := x.tasks.length + 1
  let task : Task := ⟨name, generation, line, now, .empty outputLimit, none⟩
  (generation,
    { tasks := x.tasks ++ [task]
      live := x.live.filter (fun g => !x.isNamed name g) ++ [generation]
      retired := x.retired ++ x.live.filter (x.isNamed name) })

/-- The index with one task changed. -/
def modify (x : TaskIndex) (generation : Nat) (f : Task → Task) : TaskIndex :=
  if generation = 0 then x else { x with tasks := x.tasks.modify (generation - 1) f }

def print (x : TaskIndex) (generation : Nat) (text : String) : TaskIndex :=
  x.modify generation fun t => t.print text

def complete (x : TaskIndex) (generation : Nat) (record : Record) (now : Timestamp) : TaskIndex :=
  x.modify generation fun t => t.complete record now

/-- The live tasks, oldest first. -/
def liveTasks (x : TaskIndex) : List Task := x.live.filterMap x.task?

/-- The retired tasks in the order in which they retired. -/
def retiredTasks (x : TaskIndex) : List Task := x.retired.filterMap x.task?

/-- The retired tasks of a name, oldest first. -/
def retiredNamed (x : TaskIndex) (name : String) : List Task :=
  x.retiredTasks.filter fun t => t.name = name

/-- The live tasks, then the retired ones. -/
def list (x : TaskIndex) (now : Timestamp) : List TaskSummary :=
  x.liveTasks.map (fun t => t.summary now true) ++
    x.retiredTasks.map fun t => t.summary now false

/-- The last lines of the output of the live task of a name; all of them for a negative count. -/
def output? (x : TaskIndex) (name : String) (last : Int) : Option (List String) :=
  (x.get? name).map fun t => if last < 0 then t.output.lines else t.output.tail last.toNat

/-- How many tasks are on the index. -/
def count (x : TaskIndex) : Nat := x.live.length + x.retired.length

/-- Takes tasks off the index, the completed ones or all: how many, and the index after it. -/
def clear (x : TaskIndex) (onlyDone : Bool) : Nat × TaskIndex :=
  let keep := fun g => onlyDone && !x.isDone g
  let cleared := { x with live := x.live.filter keep, retired := x.retired.filter keep }
  (x.count - cleared.count, cleared)

end TaskIndex

end CommandShell
