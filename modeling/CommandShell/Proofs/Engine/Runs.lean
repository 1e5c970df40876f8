import CommandShell.Engine.Pool
import CommandShell.Proofs.Engine.Answering
/-!
# Runs of an interpreter

Lines and direct calls of any thread and background jobs go on side by side, step by step, in any
order.  `Step` is one thing that may happen, `Reached` what may have come about.

    a scene is a world and the calls that wait
    what a step of the background jobs can be           (startNext_cases, advance_cases)
    settling, letting time pass and draining are made of steps
                                   (Reached.settle, Reached.elapse, Reached.drain)
-/

namespace CommandShell

namespace World

theorem quiet_passTo (w : World) (moment : Timestamp) : Quiet w (w.passTo moment) :=
  quiet_of_same rfl rfl rfl

/-! ## Steps of background jobs -/

/-- The first job of the queue goes to a free worker, which binds itself and begins the line. -/
theorem startNext_cases {i : Interpreter} {w w' : World} (h : w.startNext i = some w') :
    ∃ job queue invocation w₁,
      w.pool.queue = job :: queue ∧ w.pool.running.length < w.pool.workers ∧
        ((w.bind (.worker (freeWorker w.pool.running)) (some job.key)).beginLine i job.session
            job.line (.capture job.session job.generation) = none ∧ invocation = none ∧
            w₁ = w.bind (.worker (freeWorker w.pool.running)) (some job.key) ∨
          ∃ inv, invocation = some inv ∧
            (w.bind (.worker (freeWorker w.pool.running)) (some job.key)).beginLine i job.session
              job.line (.capture job.session job.generation) = some (inv, w₁)) ∧
        w' = { w₁ with pool := { w₁.pool with
          queue := queue
          running := w₁.pool.running ++ [⟨freeWorker w.pool.running, job,
            Assoc.get? (.worker (freeWorker w.pool.running)) w.bound, invocation⟩] } } := by
  unfold startNext at h
  cases hqueue : w.pool.queue with
  | nil => simp [hqueue] at h
  | cons job queue =>
    simp only [hqueue] at h
    obtain ⟨hfree, h⟩ := Option.ite_none_right_eq_some.1 h
    cases hbegin : (w.bind (.worker (freeWorker w.pool.running)) (some job.key)).beginLine i
        job.session job.line (.capture job.session job.generation) with
    | none =>
      rw [hbegin] at h
      exact ⟨job, queue, none, _, rfl, hfree, Or.inl ⟨hbegin, rfl, rfl⟩, (Option.some.inj h).symm⟩
    | some begun =>
      obtain ⟨inv, w₁⟩ := begun
      rw [hbegin] at h
      exact ⟨job, queue, some inv, w₁, rfl, hfree, Or.inr ⟨inv, rfl, hbegin⟩,
        (Option.some.inj h).symm⟩

/-- A running job ends, because its line was blank or its script is at its end, or one of its
requests is answered. -/
theorem advance_cases {i : Interpreter} {w w' : World} {r : Running}
    (h : w.advance i r = some w') :
    (r.invocation = none ∧ w' = w.releaseJob r (blankRecord w.now)) ∨
      (∃ inv outcome, r.invocation = some inv ∧ inv.script = .done outcome ∧
        w' = w.finishJob r inv outcome) ∨
      ∃ inv request next reply w₁, r.invocation = some inv ∧
        inv.script = .request request next ∧
        w.answer i (.worker r.worker) request = some (reply, w₁) ∧
        w' = w₁.updateJob r { inv with script := next reply } := by
  unfold advance at h
  cases hcall : r.invocation with
  | none =>
    rw [hcall] at h
    exact Or.inl ⟨rfl, (Option.some.inj h).symm⟩
  | some inv =>
    rw [hcall] at h
    cases hscript : inv.script with
    | done outcome =>
      simp only [hscript] at h
      exact Or.inr (Or.inl ⟨inv, outcome, rfl, hscript, (Option.some.inj h).symm⟩)
    | request request next =>
      simp only [hscript] at h
      cases hanswer : w.answer i (.worker r.worker) request with
      | none => simp [hanswer] at h
      | some answered =>
        obtain ⟨reply, w₁⟩ := answered
        simp only [hanswer] at h
        exact Or.inr (Or.inr ⟨inv, request, next, reply, w₁, rfl, hscript, hanswer,
          (Option.some.inj h).symm⟩)

end World

open World

/-- An interpreter at work: its world, and the calls that wait, each with its thread. -/
structure Scene where
  world : World
  waiting : List (Thread × Invocation)

/-- The scene after a thread has run a call. -/
def Scene.after (waiting : List (Thread × Invocation)) (th : Thread) (run : Called × World) :
    Scene :=
  match run.1 with
  | .waiting inv => ⟨run.2, waiting ++ [(th, inv)]⟩
  | _ => ⟨run.2, waiting⟩

/-- When one of the calls that wait is taken up, the others did wait. -/
theorem Scene.mem_waiting {s : Scene} {before after : List (Thread × Invocation)}
    {p q : Thread × Invocation} (h : s.waiting = before ++ q :: after)
    (hp : p ∈ before ++ after) : p ∈ s.waiting := by
  rw [h]
  exact ((List.sublist_cons_self q after).append_left before).subset hp

/-- One thing that may happen.  What is not about a call logs nothing: sessions are opened and
closed, variables set, jobs submitted; gates open and time passes. -/
inductive Step (i : Interpreter) : Scene → Scene → Prop
  | execute (s : Scene) (th : Thread) (line : String) :
      Step i s (.after s.waiting th (s.world.execute i th line))
  | executeAs (s : Scene) (th : Thread) (key : SessionKey) (line : String) :
      Step i s (.after s.waiting th (s.world.executeAs i th key line))
  | invoke (s : Scene) (th : Thread) (name : String) (values : List Value) :
      Step i s (.after s.waiting th (s.world.invoke i th name values))
  | resume {s : Scene} {before after : List (Thread × Invocation)} {th : Thread}
      {inv : Invocation} (h : s.waiting = before ++ (th, inv) :: after) :
      Step i s (.after (before ++ after) th (s.world.runCall i th inv))
  | submit (s : Scene) (th : Thread) (task line : String) :
      Step i s ⟨(s.world.submit i th task line).2, s.waiting⟩
  | startNext {s : Scene} {w : World} (h : s.world.startNext i = some w) :
      Step i s ⟨w, s.waiting⟩
  | advance {s : Scene} {r : Running} {w : World} (hr : r ∈ s.world.pool.running)
      (h : s.world.advance i r = some w) : Step i s ⟨w, s.waiting⟩
  | start (s : Scene) : Step i s ⟨(s.world.start i).2, s.waiting⟩
  | shutdown (s : Scene) : Step i s ⟨(s.world.shutdown i).2, s.waiting⟩
  | silent {s : Scene} {w : World} (h : Silent s.world w) : Step i s ⟨w, s.waiting⟩

/-- A scene that comes about from the start of an interpreter. -/
inductive Reached (i : Interpreter) (now : Timestamp) (seed : Nat) : Scene → Prop
  | start : Reached i now seed ⟨.initial i.settings now seed, []⟩
  | step {s s' : Scene} (h : Reached i now seed s) (hstep : Step i s s') : Reached i now seed s'

section

variable {i : Interpreter} {now : Timestamp} {seed : Nat} {s : Scene}

/-- A step of the background jobs is one of the things that may happen. -/
theorem Reached.moveOn (h : Reached i now seed s) {w : World} (hw : s.world.step i = some w) :
    Reached i now seed ⟨w, s.waiting⟩ := by
  unfold World.step at hw
  cases hstart : s.world.startNext i with
  | some next =>
    rw [hstart] at hw
    obtain rfl := Option.some.inj hw
    exact h.step (.startNext hstart)
  | none =>
    rw [hstart, Option.none_or] at hw
    obtain ⟨r, hr, hadvance⟩ := List.exists_of_findSome?_eq_some hw
    exact h.step (.advance hr hadvance)

theorem Reached.settle (h : Reached i now seed s) (fuel : Nat) :
    Reached i now seed ⟨s.world.settle i fuel, s.waiting⟩ := by
  induction fuel generalizing s with
  | zero => exact h
  | succ fuel ih =>
    rw [World.settle]
    cases hstep : s.world.step i with
    | none => exact h
    | some next => exact ih (h.moveOn hstep)

theorem Reached.elapse (h : Reached i now seed s) (moment : Timestamp) (fuel : Nat) :
    Reached i now seed ⟨s.world.elapse i moment fuel, s.waiting⟩ := by
  induction fuel generalizing s with
  | zero => exact h.step (.silent (quiet_passTo s.world moment).toSilent)
  | succ fuel ih =>
    rw [World.elapse]
    have hsettled := h.settle fuel
    split
    · next t _ => exact ih (hsettled.step (.silent (quiet_passTo _ t).toSilent))
    · exact hsettled.step (.silent (quiet_passTo _ moment).toSilent)

theorem Reached.drain (h : Reached i now seed s) (fuel : Nat) :
    Reached i now seed ⟨s.world.drain i fuel, s.waiting⟩ := by
  induction fuel generalizing s with
  | zero => exact h
  | succ fuel ih =>
    rw [World.drain]
    have hsettled := h.settle fuel
    split
    · next t _ => exact ih (hsettled.step (.silent (quiet_passTo _ t).toSilent))
    · exact hsettled

end

end CommandShell
