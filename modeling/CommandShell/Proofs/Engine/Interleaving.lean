import CommandShell.Proofs.Engine.Calls
import CommandShell.Proofs.Engine.Runs
/-!
# Interleavings of calls and jobs

A finer view of an interpreter at work: no act is more than the beginning of one call, one answer
or one end, and every act says what was done.  Between any two of them anyone else may act.

    Act i s deed s'        one act and its deed
    Unfolds i run s        a run, moment by moment, from the start of the interpreter
    calls that wait have waited before or are new                      (Act.waiting)
    calls of callers, submissions, and what settles the background jobs are made of acts
             (exists_unfolds_execute, unfolds_submit, exists_unfolds_settle)
-/

namespace CommandShell

open World

/-- The task that a job is for. -/
def Job.ref (job : Job) : TaskRef := ⟨job.session, job.generation⟩

/-- Something that callers may do to a session by themselves. -/
inductive SessionEdit where
  | setVariable (name : String) (value : Json)
  | removeVariable (name : String)
  | push (r : Record)
  | clearTasks (onlyDone : Bool)
  | reset

def SessionEdit.apply : SessionEdit → Session → Session
  | setVariable name value, s => s.setVariable name value
  | removeVariable name, s => s.removeVariable name
  | push r, s => s.push r
  | clearTasks onlyDone, s => { s with tasks := (s.tasks.clear onlyDone).2 }
  | reset, s => s.reset

/-- What was done by an act. -/
inductive Deed where
  /-- A thread was answered a request, at work on a job or not. -/
  | asked (th : Thread) (job : Option Job) (r : Request) (reply : r.Reply)
  /-- A caller began a call. -/
  | called (inv : Invocation)
  /-- A worker began a job. -/
  | began (r : Running)
  /-- A worker ended a job, with this record. -/
  | ended (r : Running) (record : Record)
  | other

/-- The job that a deed belongs to. -/
def Deed.job? : Deed → Option Job
  | asked _ job _ _ => job
  | began r => some r.job
  | ended r _ => some r.job
  | _ => none

/-- One act.  Callers begin calls, are answered one request at a time and come to their records;
workers do the same for jobs; outside of calls callers ask for what handlers may ask for, except
to print, and edit, open, close and forget sessions; gates open, time passes, tables are walked in
other orders, and the interpreter starts and stops. -/
inductive Act (i : Interpreter) : Scene → Deed → Scene → Prop
  | call {s : Scene} {c : Nat} {line : String} {inv : Invocation} {w : World}
      (h : (s.world.current (.caller c)).2.beginLine i (s.world.current (.caller c)).1 line
        .terminal = some (inv, w)) :
      Act i s (.called inv) ⟨w, s.waiting ++ [(.caller c, inv)]⟩
  | invoke {s : Scene} {c : Nat} {name : String} {values : List Value} {inv : Invocation}
      {w : World}
      (h : (s.world.current (.caller c)).2.beginCall i (s.world.current (.caller c)).1 name
        (valuesText values) (fun _ => .ok values) = (inv, w)) :
      Act i s (.called inv) ⟨w, s.waiting ++ [(.caller c, inv)]⟩
  | request {s : Scene} {before after : List (Thread × Invocation)} {c : Nat}
      {inv : Invocation} {r : Request} {next : r.Reply → Script (Except Failure Json)}
      {reply : r.Reply} {w : World} (hwaiting : s.waiting = before ++ (.caller c, inv) :: after)
      (hscript : inv.script = .request r next)
      (h : s.world.answer i (.caller c) r = some (reply, w)) :
      Act i s (.asked (.caller c) none r reply)
        ⟨w, before ++ after ++ [(.caller c, { inv with script := next reply })]⟩
  | close {s : Scene} {before after : List (Thread × Invocation)} {th : Thread}
      {inv : Invocation} {outcome : Except Failure Json}
      (hwaiting : s.waiting = before ++ (th, inv) :: after)
      (hscript : inv.script = .done outcome) :
      Act i s .other ⟨(s.world.finishCall inv outcome).2, before ++ after⟩
  | ask {s : Scene} {c : Nat} {r : Request} {reply : r.Reply} {w : World}
      (hprint : ∀ console text, r ≠ .print console text)
      (h : s.world.answer i (.caller c) r = some (reply, w)) :
      Act i s (.asked (.caller c) none r reply) ⟨w, s.waiting⟩
  | begin {s : Scene} {r : Running} {w : World} (h : s.world.startNext i = some w)
      (hrunning : w.pool.running = s.world.pool.running ++ [r]) :
      Act i s (.began r) ⟨w, s.waiting⟩
  | proceed {s : Scene} {r : Running} {inv : Invocation} {request : Request}
      {next : request.Reply → Script (Except Failure Json)} {reply : request.Reply} {w : World}
      (hr : r ∈ s.world.pool.running) (hinv : r.invocation = some inv)
      (hscript : inv.script = .request request next)
      (h : s.world.answer i (.worker r.worker) request = some (reply, w)) :
      Act i s (.asked (.worker r.worker) (some r.job) request reply)
        ⟨w.updateJob r { inv with script := next reply }, s.waiting⟩
  | finish {s : Scene} {r : Running} {inv : Invocation} {outcome : Except Failure Json}
      (hr : r ∈ s.world.pool.running) (hinv : r.invocation = some inv)
      (hscript : inv.script = .done outcome) :
      Act i s (.ended r (inv.record s.world.now outcome))
        ⟨s.world.finishJob r inv outcome, s.waiting⟩
  | release {s : Scene} {r : Running} (hr : r ∈ s.world.pool.running)
      (hinv : r.invocation = none) :
      Act i s (.ended r (blankRecord s.world.now))
        ⟨s.world.releaseJob r (blankRecord s.world.now), s.waiting⟩
  | bind (s : Scene) (c : Nat) (key : Option SessionKey) :
      Act i s .other ⟨s.world.bind (.caller c) key, s.waiting⟩
  | locate (s : Scene) (key : SessionKey) : Act i s .other ⟨(s.world.locate key).2, s.waiting⟩
  | forget (s : Scene) (key : SessionKey) :
      Act i s .other ⟨{ s.world with sessions := s.world.sessions.forget key }, s.waiting⟩
  | edit (s : Scene) (n : Nat) (e : SessionEdit) :
      Act i s .other ⟨s.world.modifySession n e.apply, s.waiting⟩
  | openGate (s : Scene) (gate : String) : Act i s .other ⟨s.world.openGate gate, s.waiting⟩
  | passTo (s : Scene) (moment : Timestamp) : Act i s .other ⟨s.world.passTo moment, s.waiting⟩
  | reorder (s : Scene) (order : TableOrder) : Act i s .other ⟨s.world.inOrder order, s.waiting⟩
  | start (s : Scene) : Act i s .other ⟨(s.world.start i).2, s.waiting⟩
  | shutdown (s : Scene) : Act i s .other ⟨(s.world.shutdown i).2, s.waiting⟩

/-- A deed, and the world before and after it. -/
structure Moment where
  before : World
  deed : Deed
  after : World

/-- The scene in which an interpreter starts. -/
def Scene.initial (i : Interpreter) (now : Timestamp) (seed : Nat) : Scene :=
  ⟨.initial i.settings now seed, []⟩

/-- What may come about in a scene, moment by moment. -/
inductive Unfolds (i : Interpreter) (s : Scene) : List Moment → Scene → Prop
  | none : Unfolds i s [] s
  | act {run : List Moment} {s' s'' : Scene} {deed : Deed} (h : Unfolds i s run s')
      (hact : Act i s' deed s'') : Unfolds i s (run ++ [⟨s'.world, deed, s''.world⟩]) s''

namespace World

variable {i : Interpreter} {w w' : World} {inv : Invocation} {n : Nat}

/-- Beginning a call logs something, and that is all. -/
theorem exists_log_of_beginCall {typed rawArgs : String}
    {arguments : Entry → Except ParseFailure (List Value)}
    (h : w.beginCall i n typed rawArgs arguments = (inv, w')) :
    inv.toCall = w.newCall i n typed rawArgs ∧ ∃ added, w' = w.log added := by
  obtain ⟨script, taken, hbegin, -⟩ := exists_beginCall_eq i n typed rawArgs arguments w
  rw [hbegin] at h
  cases h
  exact ⟨rfl, _, rfl⟩

/-- Beginning the call of a line may take up chance besides. -/
theorem exists_log_of_beginLine {line : String} {console : Console}
    (h : w.beginLine i n line console = some (inv, w')) :
    inv.session = n ∧
      ∃ chance added, w' = { w with chance := chance, events := w.events ++ added } := by
  unfold beginLine at h
  split at h
  · cases h
  · obtain ⟨hcall, added, rfl⟩ := exists_log_of_beginCall (Option.some.inj h)
    exact ⟨congrArg Call.session hcall, _, added, rfl⟩

/-- The call that a line begins is a new one. -/
theorem exists_newCall_of_beginLine {line : String} {console : Console}
    (h : w.beginLine i n line console = some (inv, w')) :
    ∃ typed rawArgs v, inv.toCall = newCall i n typed rawArgs v := by
  unfold beginLine at h
  split at h
  · cases h
  · exact ⟨_, _, _, (exists_log_of_beginCall (Option.some.inj h)).1⟩

end World

/-- A call that waits after an act has waited before, or a caller has just begun it in its
session. -/
theorem Act.waiting {i : Interpreter} {s s' : Scene} {deed : Deed} (h : Act i s deed s')
    {p : Thread × Invocation} (hp : p ∈ s'.waiting) :
    (∃ q ∈ s.waiting, p.2.toCall = q.2.toCall) ∨ ∃ c typed rawArgs v,
      p.2.toCall = newCall i (s.world.current (.caller c)).1 typed rawArgs v ∧
        s'.world.sessions = (s.world.current (.caller c)).2.sessions := by
  have hold (hp : p ∈ s.waiting) : ∃ q ∈ s.waiting, p.2.toCall = q.2.toCall := ⟨p, hp, rfl⟩
  cases h with
  | @call c line inv w hbegin =>
    rcases List.mem_append.1 hp with hp | hp
    · exact Or.inl (hold hp)
    · obtain rfl := List.mem_singleton.1 hp
      obtain ⟨typed, rawArgs, v, hcall⟩ := exists_newCall_of_beginLine hbegin
      obtain ⟨-, chance, added, rfl⟩ := exists_log_of_beginLine hbegin
      exact Or.inr ⟨c, typed, rawArgs, v, hcall, rfl⟩
  | @invoke c name values inv w hbegin =>
    rcases List.mem_append.1 hp with hp | hp
    · exact Or.inl (hold hp)
    · obtain rfl := List.mem_singleton.1 hp
      obtain ⟨hcall, added, rfl⟩ := exists_log_of_beginCall hbegin
      exact Or.inr ⟨c, _, _, _, hcall, rfl⟩
  | @request before after c inv r next reply w hwaiting hscript hanswer =>
    rcases List.mem_append.1 hp with hp | hp
    · exact Or.inl (hold (Scene.mem_waiting hwaiting hp))
    · obtain rfl := List.mem_singleton.1 hp
      refine Or.inl ⟨(.caller c, inv), ?_, rfl⟩
      rw [hwaiting]
      exact List.mem_append_right _ List.mem_cons_self
  | close hwaiting hscript => exact Or.inl (hold (Scene.mem_waiting hwaiting hp))
  | _ => exact Or.inl (hold hp)

/-! ## Calls and steps are made of acts -/

section

variable {i : Interpreter} {s s' s'' : Scene} {run more : List Moment} {deed : Deed}
  {waiting : List (Thread × Invocation)}

theorem Unfolds.trans (h : Unfolds i s run s') (h' : Unfolds i s' more s'') :
    Unfolds i s (run ++ more) s'' := by
  induction h' with
  | none => simpa using h
  | act _ hact ih => simpa only [List.append_assoc] using ih.act hact

theorem Act.unfolds (h : Act i s deed s') : Unfolds i s [⟨s.world, deed, s'.world⟩] s' :=
  Unfolds.none.act h

/-- A caller's call that was begun is made of answers and, if it does not wait, its end. -/
theorem exists_unfolds_runCall (c : Nat) (inv : Invocation) (w : World) :
    ∃ run, Unfolds i ⟨w, waiting ++ [(.caller c, inv)]⟩ run
      (.after waiting (.caller c) (w.runCall i (.caller c) inv)) := by
  obtain ⟨call, script⟩ := inv
  induction script generalizing w with
  | done outcome =>
    have hact := Act.close (i := i) (s := ⟨w, waiting ++ [(.caller c, ⟨call, .done outcome⟩)]⟩) rfl
      rfl
    rw [List.append_nil] at hact
    exact ⟨_, hact.unfolds⟩
  | request r next ih =>
    cases hanswer : w.answer i (.caller c) r with
    | none =>
      rw [runCall_of_wait hanswer]
      exact ⟨_, .none⟩
    | some answered =>
      obtain ⟨reply, w₁⟩ := answered
      obtain ⟨run, hrun⟩ := ih reply w₁
      have hact := Act.request (s := ⟨w, waiting ++ [(.caller c, ⟨call, .request r next⟩)]⟩) rfl
        rfl hanswer
      rw [runCall_of_answer hanswer]
      rw [List.append_nil] at hact
      exact ⟨_, hact.unfolds.trans hrun⟩

/-- So is a line that a caller has executed. -/
theorem exists_unfolds_execute (s : Scene) (c : Nat) (line : String) :
    ∃ run, Unfolds i s run
      (.after s.waiting (.caller c) (s.world.execute i (.caller c) line)) := by
  cases hbegin : (s.world.current (.caller c)).2.beginLine i (s.world.current (.caller c)).1 line
      .terminal with
  | none =>
    have hblank : s.world.execute i (.caller c) line =
        (.blank, (s.world.current (.caller c)).2) := by
      simp only [World.execute, World.dispatch, hbegin]
    rw [hblank]
    exact ⟨_, (Act.locate s (s.world.currentKey (.caller c))).unfolds⟩
  | some begun =>
    obtain ⟨inv, w₁⟩ := begun
    have hcall : s.world.execute i (.caller c) line = w₁.runCall i (.caller c) inv := by
      simp only [World.execute, World.dispatch, hbegin]
    obtain ⟨run, hrun⟩ := exists_unfolds_runCall c inv w₁
    rw [hcall]
    exact ⟨_, (Act.call hbegin).unfolds.trans hrun⟩

/-- A step of the background jobs is one act, by which no caller begins a call. -/
theorem exists_act_of_step {w : World} (h : s.world.step i = some w) :
    ∃ deed, Act i s deed ⟨w, s.waiting⟩ ∧ ∀ inv, deed ≠ .called inv := by
  unfold World.step at h
  cases hstart : s.world.startNext i with
  | some next =>
    rw [hstart] at h
    obtain rfl := Option.some.inj h
    obtain ⟨job, queue, invocation, w₁, -, -, hbegin, rfl⟩ := startNext_cases hstart
    have hrunning : w₁.pool.running = s.world.pool.running := by
      rcases hbegin with ⟨-, -, rfl⟩ | ⟨inv, -, hbegin⟩
      · rfl
      · obtain ⟨-, chance, added, rfl⟩ := exists_log_of_beginLine hbegin
        rfl
    exact ⟨_, .begin hstart (by rw [← hrunning]), by simp⟩
  | none =>
    rw [hstart, Option.none_or] at h
    obtain ⟨r, hr, hadvance⟩ := List.exists_of_findSome?_eq_some h
    rcases advance_cases hadvance with ⟨hinv, rfl⟩ | ⟨inv, outcome, hinv, hscript, rfl⟩ |
      ⟨inv, request, next, reply, w₁, hinv, hscript, hanswer, rfl⟩
    · exact ⟨_, .release hr hinv, by simp⟩
    · exact ⟨_, .finish hr hinv hscript, by simp⟩
    · exact ⟨_, .proceed hr hinv hscript hanswer, by simp⟩

/-- Settling is made of such acts, each in a world that is settled as far as some step. -/
theorem exists_unfolds_settle (s : Scene) (fuel : Nat) :
    ∃ run, Unfolds i s run ⟨s.world.settle i fuel, s.waiting⟩ ∧ ∀ m ∈ run,
      (∀ inv, m.deed ≠ .called inv) ∧ ∃ k, k < fuel ∧ m.before = s.world.settle i k := by
  induction fuel generalizing s with
  | zero => exact ⟨[], .none, by simp⟩
  | succ fuel ih =>
    rw [World.settle]
    cases hstep : s.world.step i with
    | none => exact ⟨[], .none, by simp⟩
    | some w =>
      obtain ⟨deed, hact, hdeed⟩ := exists_act_of_step hstep
      obtain ⟨run, hrun, hmoments⟩ := ih ⟨w, s.waiting⟩
      refine ⟨_, hact.unfolds.trans hrun, fun m hm => ?_⟩
      rcases List.mem_cons.1 hm with rfl | hm
      · exact ⟨hdeed, 0, Nat.succ_pos fuel, rfl⟩
      · obtain ⟨hcalled, k, hk, hbefore⟩ := hmoments m hm
        refine ⟨hcalled, k + 1, Nat.succ_lt_succ hk, ?_⟩
        rw [hbefore, World.settle, hstep]

/-- A submission by a caller is one answer. -/
theorem unfolds_submit (s : Scene) (c : Nat) (task line : String) :
    Unfolds i s [⟨s.world, .asked (.caller c) none (.submit task line)
      ((s.world.submit i (.caller c) task line).1.map (·.generation)),
      (s.world.submit i (.caller c) task line).2⟩]
      ⟨(s.world.submit i (.caller c) task line).2, s.waiting⟩ :=
  Act.unfolds (.ask (by simp) rfl)

end

end CommandShell
