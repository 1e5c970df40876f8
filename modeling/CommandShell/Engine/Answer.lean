import CommandShell.Engine.World
/-!
# Answering the requests of handlers

`answer` is what the world does for a handler; `Script.run` answers the requests of a script one
after the other, as far as it gets.  Two requests may have to wait: to pass a gate that is not
open, and to sleep until a moment that is yet to come.

    answer w r = none ↔ r waits for a gate or a moment, and w is not so far  (answer_eq_none_iff)
-/

namespace CommandShell

/-- Which task a submission opened. -/
structure TaskRef where
  session : Nat
  generation : Nat
  deriving DecidableEq

namespace World

open CommandShell.Text

/-- Submits a line as a background task of the session in which the thread acts.  After the
shutdown, and for a blank line, nothing is submitted. -/
def submit (i : Interpreter) (th : Thread) (task line : String) (w : World) :
    Except SubmitError TaskRef × World :=
  if allBlank line.toList then (.error .emptyLine, w)
  else
    let key := w.currentKey th
    let (n, w) := w.locate key
    if w.pool.stopped then (.error .stopped, w)
    else
      let (generation, tasks) :=
        (w.session n).tasks.submit task line i.settings.outputLimit.toNat w.now
      let w := w.modifySession n fun s => { s with tasks := tasks }
      (.ok ⟨n, generation⟩,
        { w with pool := { w.pool with queue := w.pool.queue ++ [⟨n, generation, key, line⟩] } })

/-- What a request gets in the session in which the thread acts; nothing if it has to wait. -/
def answer (i : Interpreter) (th : Thread) (w : World) : (r : Request) → Option (r.Reply × World)
  | .print console text => some ((), w.print console text)
  | .sessionLabel => some ((w.currentKey th).label, w)
  | .getVariable name =>
    let (n, w) := w.current th
    some ((w.session n).getVariable name, w)
  | .setVariable name value =>
    let (n, w) := w.current th
    some ((w.session n).getVariable name, w.modifySession n fun s => s.setVariable name value)
  | .vars =>
    let (n, w) := w.current th
    some ((w.session n).vars, w)
  | .history query =>
    let (n, w) := w.current th
    some (query.run (w.session n).history, w)
  | .submit task line =>
    let (result, w) := w.submit i th task line
    some (result.map (·.generation), w)
  | .tasks =>
    let (n, w) := w.current th
    some ((w.session n).tasks.list w.now, w)
  | .clearTasks onlyDone =>
    let (n, w) := w.current th
    let (count, tasks) := (w.session n).tasks.clear onlyDone
    some (count, w.modifySession n fun s => { s with tasks := tasks })
  | .output task last =>
    let (n, w) := w.current th
    some ((w.session n).tasks.output? task last, w)
  | .commands => some (i.registry.commands.map Entry.info, w)
  | .exit => some ((), { w with exitRequested := true })
  | .clock => some (w.now, w)
  | .sleepUntil moment => if moment ≤ w.now then some ((), w) else none
  | .pass gate => if gate ∈ w.gates then some ((), w) else none

/-- Opens a gate for good. -/
def openGate (w : World) (gate : String) : World := { w with gates := w.gates ++ [gate] }

end World

/-- How far a script has come: to its end, or to a request that has to wait. -/
inductive Progress (α : Type) where
  | finished (result : α)
  | waiting (rest : Script α)

/-- Answers the requests of a script as far as possible. -/
def Script.run {α : Type} (i : Interpreter) (th : Thread) : Script α → World → Progress α × World
  | .done a, w => (.finished a, w)
  | .request r next, w =>
    match w.answer i th r with
    | some (reply, w) => (next reply).run i th w
    | none => (.waiting (.request r next), w)

/-! ## Lemmas -/

theorem World.answer_eq_none_iff (i : Interpreter) (th : Thread) (w : World) (r : Request) :
    w.answer i th r = none ↔
      (∃ gate, r = .pass gate ∧ gate ∉ w.gates) ∨ ∃ t, r = .sleepUntil t ∧ w.now < t := by
  cases r <;> simp [World.answer]

end CommandShell
