import CommandShell.Engine.Dispatch
import CommandShell.Proofs.Line.Placeholders
/-!
# A session by itself

What a call makes of the session in which it is made can be told from that session alone: which
other sessions there are is no matter.  Two sessions that differ in times only are alike, and so is
what a call makes of them, if its script does not look at times.

    answer i a s r       the reply to a request, and the session after it
    line i a order g text s
                         the session after a line was run in it
    x.Same y             the scripts do the same, whatever times each of them sees
    sessions alike become sessions alike                (call_timeless, line_timeless)
-/

namespace CommandShell

open CommandShell.Text

/-- What the requests of a session are answered from besides the session. -/
structure Around where
  now : Timestamp
  /-- Whether the pool takes no more jobs. -/
  stopped : Bool
  gates : List String

def Around.atTime (a : Around) (time : Timestamp) : Around := { a with now := time }

/-! ## Requests and calls -/

namespace Session

/-- What a request gets in a session; nothing if it has to wait. -/
def answer (i : Interpreter) (a : Around) (s : Session) : (r : Request) → Option (r.Reply × Session)
  | .print _ _ => some ((), s)
  | .sessionLabel => some (s.label, s)
  | .getVariable name => some (s.getVariable name, s)
  | .setVariable name value => some (s.getVariable name, s.setVariable name value)
  | .vars => some (s.vars, s)
  | .history query => some (query.run s.history, s)
  | .submit task line =>
    if allBlank line.toList then some (.error .emptyLine, s)
    else if a.stopped then some (.error .stopped, s)
    else
      let (generation, tasks) := s.tasks.submit task line i.settings.outputLimit.toNat a.now
      some (.ok generation, { s with tasks := tasks })
  | .tasks => some (s.tasks.list a.now, s)
  | .clearTasks onlyDone =>
    let (count, tasks) := s.tasks.clear onlyDone
    some (count, { s with tasks := tasks })
  | .output task last => some (s.tasks.output? task last, s)
  | .commands => some (i.registry.commands.map Entry.info, s)
  | .exit => some ((), s)
  | .clock => some (a.now, s)
  | .sleepUntil moment => if moment ≤ a.now then some ((), s) else none
  | .pass gate => if gate ∈ a.gates then some ((), s) else none

end Session

/-- Answers the requests of a script in a session as far as possible. -/
def Script.runIn {α : Type} (i : Interpreter) (a : Around) : Script α → Session →
    Progress α × Session
  | .done x, s => (.finished x, s)
  | .request r next, s =>
    match s.answer i a r with
    | some (reply, s) => (next reply).runIn i a s
    | none => (.waiting (.request r next), s)

/-- What a command runs with some values. -/
def Interpreter.script (i : Interpreter) (name : String) (values : List Value) :
    Script (Except Failure Json) :=
  handlerScript (i.registry.find name) ⟨i.registry.canonicalName name, values⟩

namespace Session

/-- What a call goes on with: the filters are asked, and then for the arguments. -/
def begun (i : Interpreter) (s : Session) (typed rawArgs : String)
    (arguments : Entry → Except ParseFailure (List Value)) : Script (Except Failure Json) :=
  match (i.registry.runFilters ⟨i.registry.canonicalName typed, rawArgs, s.label⟩).2 with
  | some failure => .done (.error failure)
  | none =>
    match arguments (i.registry.find typed) with
    | .error cause => .done (.error (.parse cause))
    | .ok values => i.script typed values

/-- The session after the script of a call was run in it.  A call that comes to its end leaves its
record. -/
def conclude (i : Interpreter) (a : Around) (typed rawArgs : String)
    (script : Script (Except Failure Json)) (s : Session) : Session :=
  match script.runIn i a s with
  | (.finished outcome, s) => s.push ⟨typed, rawArgs, a.now, 0, outcome⟩
  | (.waiting _, s) => s

/-- The session after a call was made in it. -/
def call (i : Interpreter) (a : Around) (typed rawArgs : String)
    (arguments : Entry → Except ParseFailure (List Value)) (s : Session) : Session :=
  s.conclude i a typed rawArgs (s.begun i typed rawArgs arguments)

/-- The session after a line was run in it. -/
def line (i : Interpreter) (a : Around) (order : TableOrder) (g : Generator) (text : String)
    (s : Session) : Session :=
  match splitCommand text with
  | none => s
  | some (typed, rest) =>
    let rawArgs := (Line.substitute s.getVariable rest g).1
    s.call i a typed rawArgs fun e => i.parse e rawArgs .terminal order

end Session

/-! ## Times aside -/

/-- The record without its times. -/
def Record.timeless (r : Record) : Record := { r with startedAt := 0, elapsed := 0 }

def Completion.timeless (c : Completion) : Completion := ⟨c.record.timeless, 0⟩

/-- The task without its times. -/
def Task.timeless (t : Task) : Task :=
  { t with submittedAt := 0, completion := t.completion.map Completion.timeless }

def TaskIndex.timeless (x : TaskIndex) : TaskIndex := { x with tasks := x.tasks.map Task.timeless }

/-- The session without the times of its records and tasks. -/
def Session.timeless (s : Session) : Session :=
  { s with history := s.history.map Record.timeless, tasks := s.tasks.timeless }

def Around.timeless (a : Around) : Around := a.atTime 0

namespace TaskIndex

variable (x : TaskIndex)

theorem task?_timeless (g : Nat) : x.timeless.task? g = (x.task? g).map Task.timeless := by
  unfold task?
  split
  · rfl
  · exact List.getElem?_map

theorem isNamed_timeless (name : String) : x.timeless.isNamed name = x.isNamed name := by
  funext g
  rw [isNamed, task?_timeless, Option.any_map]
  rfl

theorem isDone_timeless : x.timeless.isDone = x.isDone := by
  funext g
  have hdone : (fun t : Task => t.timeless.isDone) = Task.isDone :=
    funext fun _ => Option.isSome_map
  rw [isDone, task?_timeless, Option.any_map, hdone, isDone]

theorem submit_timeless (name line : String) (limit : Nat) (now : Timestamp) :
    ((x.submit name line limit now).1, (x.submit name line limit now).2.timeless) =
      x.timeless.submit name line limit 0 := by
  simp only [submit, isNamed_timeless]
  simp [timeless, Task.timeless]

theorem clear_timeless (onlyDone : Bool) :
    ((x.clear onlyDone).1, (x.clear onlyDone).2.timeless) = x.timeless.clear onlyDone := by
  simp only [clear, isDone_timeless]
  rfl

theorem output?_timeless (name : String) (last : Int) :
    x.timeless.output? name last = x.output? name last := by
  have hlive : x.timeless.liveGeneration? name = x.liveGeneration? name :=
    congrArg x.live.find? (x.isNamed_timeless name)
  have hget : x.timeless.get? name = (x.get? name).map Task.timeless := by
    rw [get?, hlive, get?]
    cases x.liveGeneration? name with
    | none => rfl
    | some g => exact x.task?_timeless g
  rw [output?, hget, Option.map_map]
  rfl

end TaskIndex

namespace Session

theorem push_timeless (s : Session) (r : Record) :
    (s.push r).timeless = s.timeless.push r.timeless := by
  simp [push, timeless, List.map_drop]

theorem reset_timeless (s : Session) : s.reset.timeless = s.timeless.reset := by
  simp only [reset, timeless, ← TaskIndex.clear_timeless]
  rfl

end Session

/-- A request whose reply tells nothing of times, and does not depend on them. -/
def Request.Plain : Request → Prop
  | .history _ | .tasks | .clock | .sleepUntil _ => False
  | _ => True

/-- Two scripts do the same to their sessions, whatever times each of them sees.  What they print
may differ. -/
inductive Script.Same {α : Type} : Script α → Script α → Prop
  | done (x : α) : Same (.done x) (.done x)
  | print {console console' : Console} {text text' : String} {next next' : Unit → Script α}
      (h : Same (next ()) (next' ())) :
      Same (.request (.print console text) next) (.request (.print console' text') next')
  | plain {r : Request} {next next' : r.Reply → Script α} (hr : r.Plain)
      (h : ∀ reply, Same (next reply) (next' reply)) : Same (.request r next) (.request r next')
  | history {query : HistoryQuery} {next next' : List Json → Script α}
      (h : ∀ records records' : List Record,
        records.map Record.timeless = records'.map Record.timeless →
          Same (next (query.run records)) (next' (query.run records'))) :
      Same (.request (.history query) next) (.request (.history query) next')
  | tasks {next next' : List TaskSummary → Script α}
      (h : ∀ (x x' : TaskIndex) (now now' : Timestamp), x.timeless = x'.timeless →
        Same (next (x.list now)) (next' (x'.list now'))) :
      Same (.request .tasks next) (.request .tasks next')
  | clock {next next' : Timestamp → Script α} (h : ∀ now now', Same (next now) (next' now')) :
      Same (.request .clock next) (.request .clock next')

/-- What the script does to its session does not depend on the times that it sees. -/
def Script.Timeless {α : Type} (s : Script α) : Prop := s.Same s

/-- The result of a script that has come to its end. -/
def Progress.result? {α : Type} : Progress α → Option α
  | finished x => some x
  | waiting _ => none

section

variable {α : Type} {i : Interpreter} {a b : Around} {s t : Session} {x y : Script α}

theorem Session.answer_timeless {r : Request} (hr : r.Plain) (i : Interpreter) (a : Around)
    (s : Session) :
    (s.answer i a r).map (fun e => (e.1, e.2.timeless)) = s.timeless.answer i a.timeless r := by
  cases r with
  | history query => exact hr.elim
  | tasks => exact hr.elim
  | clock => exact hr.elim
  | sleepUntil moment => exact hr.elim
  | submit task line =>
    have hsubmit := s.tasks.submit_timeless task line i.settings.outputLimit.toNat a.now
    simp only [answer, apply_ite (Option.map _), Option.map_some]
    simp only [timeless, Around.timeless, Around.atTime, ← hsubmit]
  | clearTasks onlyDone =>
    have hclear := s.tasks.clear_timeless onlyDone
    simp only [answer, Option.map_some, timeless, ← hclear]
  | output task last =>
    have houtput := s.tasks.output?_timeless task last
    simp only [answer, Option.map_some, timeless, houtput]
  | pass gate =>
    simp only [answer, apply_ite (Option.map _), Option.map_some, Option.map_none]
    rfl
  | _ => rfl

/-- Scripts that do the same come to the same result, in sessions that stay alike. -/
theorem Script.Same.runIn (h : x.Same y) (hs : s.timeless = t.timeless)
    (ha : a.timeless = b.timeless) :
    (x.runIn i a s).1.result? = (y.runIn i b t).1.result? ∧
      (x.runIn i a s).2.timeless = (y.runIn i b t).2.timeless := by
  induction h generalizing s t with
  | done x => exact ⟨rfl, hs⟩
  | print _ ih => exact ih hs
  | @plain r next next' hr _ ih =>
    have hanswer : (s.answer i a r).map (fun e => (e.1, e.2.timeless)) =
        (t.answer i b r).map fun e => (e.1, e.2.timeless) := by
      rw [Session.answer_timeless hr, Session.answer_timeless hr, hs, ha]
    rw [Script.runIn, Script.runIn]
    cases hx : s.answer i a r with
    | none =>
      cases hy : t.answer i b r with
      | none => exact ⟨rfl, hs⟩
      | some e => simp [hx, hy] at hanswer
    | some d =>
      cases hy : t.answer i b r with
      | none => simp [hx, hy] at hanswer
      | some e =>
        rw [hx, hy, Option.map_some, Option.map_some, Option.some.injEq, Prod.mk.injEq] at hanswer
        obtain ⟨reply, s'⟩ := d
        obtain ⟨reply', t'⟩ := e
        obtain ⟨rfl, hst⟩ := hanswer
        exact ih reply hst
  | history _ ih => exact ih s.history t.history (congrArg Session.history hs) hs
  | tasks _ ih => exact ih s.tasks t.tasks a.now b.now (congrArg Session.tasks hs) hs
  | clock _ ih => exact ih a.now b.now hs

end

namespace Session

variable {i : Interpreter} {a b : Around} {s t : Session}
  {arguments : Entry → Except ParseFailure (List Value)} {typed rawArgs : String}

theorem conclude_timeless {script : Script (Except Failure Json)} (h : script.Timeless)
    (hs : s.timeless = t.timeless) (ha : a.timeless = b.timeless) :
    (s.conclude i a typed rawArgs script).timeless =
      (t.conclude i b typed rawArgs script).timeless := by
  obtain ⟨hresult, hafter⟩ := h.runIn (i := i) hs ha
  unfold conclude
  split
  · next outcome s' hx =>
    split
    · next outcome' t' hy =>
      rw [hx, hy] at hresult hafter
      obtain rfl := Option.some.inj hresult
      rw [push_timeless, push_timeless, hafter]
      rfl
    · next hy =>
      rw [hx, hy] at hresult
      cases hresult
  · next hx =>
    split
    · next hy =>
      rw [hx, hy] at hresult
      cases hresult
    · next hy =>
      rw [hx, hy] at hafter
      exact hafter

/-- **A call makes sessions alike of sessions alike**, if what it runs does not look at times. -/
theorem call_timeless (hs : s.timeless = t.timeless) (ha : a.timeless = b.timeless)
    (h : ∀ values, arguments (i.registry.find typed) = .ok values →
      (i.script typed values).Timeless) :
    (s.call i a typed rawArgs arguments).timeless =
      (t.call i b typed rawArgs arguments).timeless := by
  have hlabel : t.label = s.label := (congrArg Session.label hs).symm
  have hbegun : t.begun i typed rawArgs arguments = s.begun i typed rawArgs arguments := by
    rw [begun, hlabel, begun]
  rw [call, call, hbegun]
  refine conclude_timeless ?_ hs ha
  unfold begun
  split
  · exact .done _
  · split
    · exact .done _
    · next values hargs => exact h values hargs

/-- So does a line. -/
theorem line_timeless {order : TableOrder} {g : Generator} {text : String}
    (hs : s.timeless = t.timeless) (ha : a.timeless = b.timeless)
    (h : ∀ typed rest, splitCommand text = some (typed, rest) → ∀ rawArgs values,
      i.parse (i.registry.find typed) rawArgs .terminal order = .ok values →
        (i.script typed values).Timeless) :
    (s.line i a order g text).timeless = (t.line i b order g text).timeless := by
  have hlookup : t.getVariable = s.getVariable := (congrArg Session.getVariable hs).symm
  unfold line
  split
  · exact hs
  · next typed rest hsplit =>
    dsimp only
    rw [hlookup]
    exact call_timeless hs ha fun values => h typed rest hsplit _ values

/-- Without random placeholders in its arguments, what a line does is no matter of chance. -/
theorem line_of_chanceless {text : String}
    (h : ∀ typed rest, splitCommand text = some (typed, rest) → Line.Chanceless rest)
    (order : TableOrder) (g g' : Generator) :
    s.line i a order g text = s.line i a order g' text := by
  unfold line
  split
  · rfl
  · next typed rest hsplit =>
    dsimp only
    rw [Line.substitute_of_chanceless (h typed rest hsplit) g g']

/-- What a line does is no matter of the order either, if its arguments are read alike in all. -/
theorem line_of_orderless {text : String} {order order' : TableOrder}
    (h : ∀ typed rest, splitCommand text = some (typed, rest) → ∀ rawArgs,
      i.parse (i.registry.find typed) rawArgs .terminal order =
        i.parse (i.registry.find typed) rawArgs .terminal order') (g : Generator) :
    s.line i a order g text = s.line i a order' g text := by
  unfold line
  split
  · rfl
  · next typed rest hsplit =>
    dsimp only
    rw [call, call, begun, begun, h typed rest hsplit]

end Session

end CommandShell
