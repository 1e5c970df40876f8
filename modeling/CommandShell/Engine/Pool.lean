import CommandShell.Engine.Dispatch
/-!
# Background jobs

Submitted lines wait in a queue; a free worker takes the first of them, binds itself to the key of
the submitter, runs the line with the task's capture as its console, stores the record on the
task and goes back to what it was bound to before.

Three steps make up every run: `startNext` gives a job to a worker, `advance` answers one request
of a running job, `finishJob` ends it.  They may be interleaved in any order; `settle` takes them
in one order until nothing can move, which is a matter of no time.  `elapse` and `drain` let time
pass for jobs that wait for a moment.
-/

namespace CommandShell.World

/-- The smallest number that no running job has as its worker. -/
def freeWorker (running : List Running) : Nat :=
  ((List.range (running.length + 1)).find? fun n => running.all fun r => r.worker ≠ n).getD 0

/-- Gives the first job of the queue to a free worker. -/
def startNext (i : Interpreter) (w : World) : Option World :=
  match w.pool.queue with
  | [] => none
  | job :: queue =>
    if w.pool.running.length < w.pool.workers then
      let worker := freeWorker w.pool.running
      let th : Thread := .worker worker
      let previous := Assoc.get? th w.bound
      let w := w.bind th (some job.key)
      let (invocation, w) :=
        match w.beginLine i job.session job.line (.capture job.session job.generation) with
        | none => (none, w)
        | some (inv, w) => (some inv, w)
      let running := w.pool.running ++ [⟨worker, job, previous, invocation⟩]
      some { w with pool := { w.pool with queue := queue, running := running } }
    else none

/-- The record of a job whose line made no call. -/
def blankRecord (now : Timestamp) : Record := ⟨"", "", now, 0, .ok .null⟩

/-- Ends a running job: stores its record and frees its worker. -/
def releaseJob (r : Running) (record : Record) (w : World) : World :=
  let w := w.modifySession r.job.session fun s =>
    { s with tasks := s.tasks.complete r.job.generation record w.now }
  let w := w.bind (.worker r.worker) r.previous
  { w with
    pool := { w.pool with running := w.pool.running.filter fun q => q.worker ≠ r.worker } }

/-- Ends a job whose call has come to its outcome. -/
def finishJob (r : Running) (inv : Invocation) (outcome : Except Failure Json) (w : World) :
    World :=
  let (record, w) := w.finishCall inv outcome
  w.releaseJob r record

/-- Puts a job that has moved on back in its place. -/
def updateJob (r : Running) (inv : Invocation) (w : World) : World :=
  let running := w.pool.running.map fun q =>
    if q.worker = r.worker then { q with invocation := some inv } else q
  { w with pool := { w.pool with running := running } }

/-- Answers one request of a running job, or ends it if there are no more.  A job that has to wait
does not move. -/
def advance (i : Interpreter) (r : Running) (w : World) : Option World :=
  match r.invocation with
  | none => some (w.releaseJob r (blankRecord w.now))
  | some inv =>
    match inv.script with
    | .done outcome => some (w.finishJob r inv outcome)
    | .request request next =>
      match w.answer i (.worker r.worker) request with
      | some (reply, w) => some (w.updateJob r { inv with script := next reply })
      | none => none

/-- The world after the first step that is possible: a job is started, or else the first running
job that need not wait moves on. -/
def step (i : Interpreter) (w : World) : Option World :=
  (w.startNext i).or (w.pool.running.findSome? fun r => w.advance i r)

/-- Takes up to `fuel` steps. -/
def settle (i : Interpreter) : Nat → World → World
  | 0, w => w
  | fuel + 1, w =>
    match w.step i with
    | some next => settle i fuel next
    | none => w

/-- Whether nothing is queued or running. -/
def isIdle (w : World) : Bool := w.pool.queue.isEmpty && w.pool.running.isEmpty

/-! ## Time -/

/-- The first moment for which a running job waits. -/
def nextMoment? (w : World) : Option Timestamp :=
  (w.pool.running.filterMap fun r => r.invocation.bind Invocation.moment?).min?

/-- Moves the clock on to a moment, unless it is past. -/
def passTo (moment : Timestamp) (w : World) : World := { w with now := max w.now moment }

/-- Lets time pass up to a moment, and jobs that wait for a moment go on when theirs has come. -/
def elapse (i : Interpreter) (moment : Timestamp) : Nat → World → World
  | 0, w => w.passTo moment
  | fuel + 1, w =>
    let w := w.settle i fuel
    match w.nextMoment?.filter (· ≤ moment) with
    | some t => elapse i moment fuel (w.passTo t)
    | none => w.passTo moment

/-- Lets time pass until no job waits for a moment. -/
def drain (i : Interpreter) : Nat → World → World
  | 0, w => w
  | fuel + 1, w =>
    let w := w.settle i fuel
    match w.nextMoment? with
    | some t => drain i fuel (w.passTo t)
    | none => w

/-! ## Start and stop -/

/-- Runs the handlers of the start. -/
def start (i : Interpreter) (w : World) : Option LifecycleFailure × World :=
  let (events, failure) := i.registry.startAll
  (failure, w.log events)

/-- Runs the handlers of the stop and closes the pool: jobs that wait are dropped, running ones
go on.  All of this happens once, however often it is asked for. -/
def shutdown (i : Interpreter) (w : World) : List LifecycleFailure × World :=
  if w.shutDown then ([], w)
  else
    let (events, failures) := i.registry.stopAll
    let w := w.log events
    (failures, { w with shutDown := true, pool := { w.pool with queue := [], stopped := true } })

end CommandShell.World
