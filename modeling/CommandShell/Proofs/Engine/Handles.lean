import CommandShell.Proofs.Engine.Interleaving
import CommandShell.Proofs.Task.Capture
import CommandShell.Proofs.Task.Index
/-!
# What an act does to tasks and jobs

Most acts are of no matter to background jobs.  Those that are, change one task or the pool at one
place: a text is printed on the console of a task, a job is submitted, a worker takes a job up,
goes on with it, or ends it.

    Still w w'                    no task, no job and no binding of a worker has changed
    Turn i w deed w'              what an act can be to the jobs              (Act.turn)
    a turn changes the tasks as its deed says                                 (Turn.task?)
    and opens a task if it submits a job                                 (Turn.submits)
    calls of jobs were under way before or are new                       (Turn.running)
-/

namespace CommandShell

namespace World

/-- The task of a reference, on its index or not. -/
def task? (w : World) (ref : TaskRef) : Option Task :=
  (w.session ref.session).tasks.task? ref.generation

/-- The job that a request submits. -/
def submission (w : World) (th : Thread) : (r : Request) → r.Reply → Option Job
  | .submit _ line, .ok generation =>
    some ⟨(w.current th).1, generation, w.currentKey th, line⟩
  | _, _ => none

variable {i : Interpreter} {th : Thread} {w w' w'' : World} {ref : TaskRef} {n : Nat}
  {f : Session → Session}

/-! ## Tasks in sessions -/

theorem task?_of_sessions (h : w'.sessions = w.sessions) (ref : TaskRef) :
    w'.task? ref = w.task? ref := by
  simp only [task?, session, h]

theorem session_of_length_le (h : w.sessions.sessions.length ≤ n) :
    w.session n = .empty (.thread 0) w.sessions.historyLimit := by
  simp [session, SessionTable.session, List.getElem?_eq_none h]

theorem task?_empty (g : Nat) : TaskIndex.empty.task? g = none := by
  unfold TaskIndex.task?
  split <;> rfl

theorem task?_of_length_le (h : w.sessions.sessions.length ≤ ref.session) :
    w.task? ref = none := by
  rw [task?, session_of_length_le h]
  exact task?_empty ref.generation

theorem task?_modifySession_of_same
    (hf : (f (w.session n)).tasks.tasks = (w.session n).tasks.tasks) (ref : TaskRef) :
    (w.modifySession n f).task? ref = w.task? ref := by
  unfold task?
  by_cases hn : ref.session = n
  · rcases session_modifySession_cases w n ref.session f with h | h
    · rw [h]
    · rw [h, hn, TaskIndex.task?, TaskIndex.task?, hf]
  · rw [session_modifySession_of_ne hn]

theorem task?_modifyTask (w : World) (n g : Nat) (change : Task → Task) (ref : TaskRef) :
    (w.modifySession n fun s => { s with tasks := s.tasks.modify g change }).task? ref =
      if (⟨n, g⟩ : TaskRef) = ref then (w.task? ref).map change else w.task? ref := by
  obtain ⟨m, k⟩ := ref
  simp only [TaskRef.mk.injEq]
  by_cases hm : n = m
  · subst hm
    by_cases hlt : n < w.sessions.sessions.length
    · rw [task?, session_modifySession_self hlt]
      simp only [task?, TaskIndex.task?_modify, true_and]
    · have hnone : w.task? ⟨n, k⟩ = none := task?_of_length_le (Nat.le_of_not_lt hlt)
      have hafter : (w.modifySession n fun s =>
          { s with tasks := s.tasks.modify g change }).task? ⟨n, k⟩ = none := by
        refine task?_of_length_le ?_
        rw [length_modifySession]
        exact Nat.le_of_not_lt hlt
      rw [hafter, hnone, Option.map_none, ite_self]
  · rw [task?, session_modifySession_of_ne (Ne.symm hm)]
    simp only [task?, hm, false_and, if_false]

/-- A new session has no tasks. -/
theorem task?_locate (w : World) (key : SessionKey) (ref : TaskRef) :
    (w.locate key).2.task? ref = w.task? ref := by
  unfold locate SessionTable.locate
  cases w.sessions.number? key with
  | some n => rfl
  | none =>
    simp only [task?, session, SessionTable.session]
    rcases Nat.lt_trichotomy ref.session w.sessions.sessions.length with h | h | h
    · rw [List.getElem?_append_left h]
    · simp [h, Session.empty]
    · rw [List.getElem?_eq_none (Nat.le_of_lt h), List.getElem?_eq_none]
      rw [List.length_append, List.length_singleton]
      exact h

/-! ## Acts that are of no matter to jobs -/

/-- No task, no running job and no binding of a worker has changed; the queue is as it was, or the
pool has stopped. -/
structure Still (w w' : World) : Prop where
  sessions : w.sessions.sessions.length ≤ w'.sessions.sessions.length
  sound : w.Sound → w'.Sound
  task? : ∀ ref, w'.task? ref = w.task? ref
  bound : ∀ k, Assoc.get? (.worker k) w'.bound = Assoc.get? (.worker k) w.bound
  running : w'.pool.running = w.pool.running
  workers : w'.pool.workers = w.pool.workers
  queue : (w'.pool.queue = w.pool.queue ∧ w'.pool.stopped = w.pool.stopped) ∨
    (w'.pool.queue = [] ∧ w'.pool.stopped = true)

theorem Still.trans (h : Still w w') (h' : Still w' w'') : Still w w'' where
  sessions := Nat.le_trans h.sessions h'.sessions
  sound hw := h'.sound (h.sound hw)
  task? ref := (h'.task? ref).trans (h.task? ref)
  bound k := (h'.bound k).trans (h.bound k)
  running := h'.running.trans h.running
  workers := h'.workers.trans h.workers
  queue := by
    rcases h'.queue with ⟨hqueue, hstopped⟩ | hstop
    · rw [hqueue, hstopped]
      exact h.queue
    · exact Or.inr hstop

theorem still_of_same (hs : w'.sessions = w.sessions) (hp : w'.pool = w.pool)
    (hb : w'.bound = w.bound) : Still w w' where
  sessions := Nat.le_of_eq (by rw [hs])
  sound h := ⟨by rw [hs]; exact h.known, by rw [hs, hp]; exact h.queued⟩
  task? := task?_of_sessions hs
  bound k := by rw [hb]
  running := by rw [hp]
  workers := by rw [hp]
  queue := Or.inl ⟨by rw [hp], by rw [hp]⟩

theorem still_bind (w : World) (c : Nat) (key : Option SessionKey) :
    Still w (w.bind (.caller c) key) where
  sessions := (quiet_bind w _ key).sessions
  sound := (quiet_bind w _ key).sound
  task? := task?_of_sessions (by cases key <;> rfl)
  bound k := by
    have hne : Thread.worker k ≠ .caller c := by simp
    cases key with
    | none => exact Assoc.get?_erase_of_ne hne w.bound
    | some key => exact Assoc.get?_put_of_ne hne key w.bound
  running := (quiet_bind w _ key).running
  workers := by cases key <;> rfl
  queue := Or.inl (by cases key <;> exact ⟨rfl, rfl⟩)

theorem still_locate (w : World) (key : SessionKey) : Still w (w.locate key).2 where
  sessions := (quiet_locate w key).sessions
  sound := (quiet_locate w key).sound
  task? := task?_locate w key
  bound _ := rfl
  running := rfl
  workers := rfl
  queue := Or.inl ⟨rfl, rfl⟩

theorem still_modifySession
    (hf : (f (w.session n)).tasks.tasks = (w.session n).tasks.tasks) :
    Still w (w.modifySession n f) where
  sessions := Nat.le_of_eq (length_modifySession w n f).symm
  sound h := by
    refine ⟨?_, ?_⟩
    · rw [length_modifySession]
      exact h.known
    · rw [length_modifySession]
      exact h.queued
  task? := task?_modifySession_of_same hf
  bound _ := rfl
  running := rfl
  workers := rfl
  queue := Or.inl ⟨rfl, rfl⟩

theorem still_forget (w : World) (key : SessionKey) :
    Still w { w with sessions := w.sessions.forget key } where
  sessions := Nat.le_refl _
  sound h := by
    refine ⟨fun p hp => h.known p ?_, h.queued⟩
    exact Assoc.mem_of_mem_erase hp
  task? _ := rfl
  bound _ := rfl
  running := rfl
  workers := rfl
  queue := Or.inl ⟨rfl, rfl⟩

theorem still_shutdown (i : Interpreter) (w : World) : Still w (w.shutdown i).2 := by
  unfold shutdown
  split
  · exact still_of_same rfl rfl rfl
  · exact {
      sessions := Nat.le_refl _
      sound := fun h => ⟨h.known, fun _ hjob => absurd hjob List.not_mem_nil⟩
      task? := fun _ => rfl
      bound := fun _ => rfl
      running := rfl
      workers := rfl
      queue := Or.inr ⟨rfl, rfl⟩ }

/-! ## Answers -/

/-- A job was submitted: it is the last of the queue, and it has a new task. -/
structure Submits (i : Interpreter) (w : World) (job : Job) (w' : World) : Prop where
  fresh : w.task? job.ref = none
  opened : w.Sound → ∃ t, w'.task? job.ref = some t ∧ t.line = job.line ∧ t.record? = none ∧
    t.output = .empty i.settings.outputLimit.toNat
  others : ∀ ref, ref ≠ job.ref → w'.task? ref = w.task? ref
  bound : w'.bound = w.bound
  pool : w'.pool = { w.pool with queue := w.pool.queue ++ [job] }
  line : Text.allBlank job.line.toList = false
  unstopped : w.pool.stopped = false

theorem task?_next (x : TaskIndex) : x.task? (x.tasks.length + 1) = none := by
  simp [TaskIndex.task?]

/-- Opening a task in a session leaves every other task as it was. -/
theorem task?_openTask_of_ne {name line : String} {limit : Nat} {now : Timestamp}
    (h : ref ≠ ⟨n, (w.session n).tasks.tasks.length + 1⟩) :
    (w.modifySession n fun s =>
      { s with tasks := ((w.session n).tasks.submit name line limit now).2 }).task? ref =
        w.task? ref := by
  obtain ⟨m, g⟩ := ref
  by_cases hm : m = n
  · subst hm
    have hg : g ≠ (w.session m).tasks.tasks.length + 1 := fun hg => h (by rw [hg])
    unfold task?
    rcases session_modifySession_cases w m m fun s =>
      { s with tasks := ((w.session m).tasks.submit name line limit now).2 } with hs | hs
    · rw [hs]
    · rw [hs]
      exact (TaskIndex.task?_submit _ line limit now g).trans (if_neg hg)
  · rw [task?, session_modifySession_of_ne hm]
    rfl

theorem task?_openTask {name line : String} {limit : Nat} {now : Timestamp}
    (h : n < w.sessions.sessions.length) :
    (w.modifySession n fun s =>
      { s with tasks := ((w.session n).tasks.submit name line limit now).2 }).task?
        ⟨n, (w.session n).tasks.tasks.length + 1⟩ =
      some ⟨name, (w.session n).tasks.tasks.length + 1, line, now, .empty limit, none⟩ := by
  rw [task?, session_modifySession_self h]
  exact (TaskIndex.task?_submit _ line limit now _).trans (if_pos rfl)

theorem submits_of_submit {task line : String} (h : w.submit i th task line = (.ok ref, w')) :
    Submits i w ⟨(w.current th).1, ref.generation, w.currentKey th, line⟩ w' := by
  unfold submit at h
  split at h
  · cases h
  · next hline =>
    have hbefore := task?_locate w (w.currentKey th)
    have hlt (hw : w.Sound) := locate_lt hw (w.currentKey th)
    have hpool : (w.locate (w.currentKey th)).2.pool = w.pool := rfl
    have hbound : (w.locate (w.currentKey th)).2.bound = w.bound := rfl
    dsimp only at h
    unfold current
    generalize w.locate (w.currentKey th) = located at *
    obtain ⟨n, w₁⟩ := located
    dsimp only at *
    split at h
    · cases h
    · next hstopped =>
      cases h
      exact {
        fresh := (hbefore _).symm.trans (task?_next _)
        opened := fun hw => ⟨_, task?_openTask (hlt hw), rfl, rfl, rfl⟩
        others := fun other hother => (task?_openTask_of_ne hother).trans (hbefore other)
        bound := hbound
        pool := by rw [← hpool]; rfl
        line := Bool.eq_false_iff.2 hline
        unstopped := by rw [← hpool]; exact Bool.eq_false_iff.2 hstopped }

theorem still_of_submit {task line : String} {e : SubmitError}
    (h : w.submit i th task line = (.error e, w')) : Still w w' ∧ w'.bound = w.bound ∧
      w'.pool = w.pool := by
  unfold submit at h
  split at h
  · cases h
    exact ⟨still_of_same rfl rfl rfl, rfl, rfl⟩
  · dsimp only at h
    split at h
    · cases h
      exact ⟨still_locate w _, rfl, rfl⟩
    · cases h

/-- An answer concerns jobs only if a text is printed on the console of a task or a job is
submitted. -/
theorem answer_cases {r : Request} {reply : r.Reply} (h : w.answer i th r = some (reply, w')) :
    (w.submission th r reply = none ∧ (∀ n g text, r ≠ .print (.capture n g) text) ∧
      Still w w' ∧ w'.bound = w.bound ∧ w'.pool = w.pool) ∨
    (∃ n g text, r = .print (.capture n g) text ∧ w' = w.print (.capture n g) text) ∨
    ∃ job, w.submission th r reply = some job ∧ Submits i w job w' := by
  have hsame (hs : w'.sessions = w.sessions) (hp : w'.pool = w.pool) (hb : w'.bound = w.bound) :
      Still w w' ∧ w'.bound = w.bound ∧ w'.pool = w.pool := ⟨still_of_same hs hp hb, hb, hp⟩
  have hcurrent : Still w (w.current th).2 := still_locate w _
  cases r with
  | print console text =>
    cases console with
    | terminal =>
      cases h
      exact Or.inl ⟨rfl, by simp, hsame rfl rfl rfl⟩
    | capture n g =>
      cases h
      exact Or.inr (Or.inl ⟨n, g, text, rfl, rfl⟩)
  | submit task line =>
    rcases hsubmit : w.submit i th task line with ⟨result, w₁⟩
    simp only [answer, hsubmit] at h
    cases h
    cases result with
    | error e => exact Or.inl ⟨rfl, by simp, still_of_submit hsubmit⟩
    | ok ref => exact Or.inr (Or.inr ⟨_, rfl, submits_of_submit hsubmit⟩)
  | setVariable name value =>
    cases h
    exact Or.inl ⟨rfl, by simp, hcurrent.trans (still_modifySession rfl), rfl, rfl⟩
  | clearTasks onlyDone =>
    cases h
    exact Or.inl ⟨rfl, by simp, hcurrent.trans (still_modifySession rfl), rfl, rfl⟩
  | getVariable name =>
    cases h
    exact Or.inl ⟨rfl, by simp, hcurrent, rfl, rfl⟩
  | vars =>
    cases h
    exact Or.inl ⟨rfl, by simp, hcurrent, rfl, rfl⟩
  | history query =>
    cases h
    exact Or.inl ⟨rfl, by simp, hcurrent, rfl, rfl⟩
  | tasks =>
    cases h
    exact Or.inl ⟨rfl, by simp, hcurrent, rfl, rfl⟩
  | output task last =>
    cases h
    exact Or.inl ⟨rfl, by simp, hcurrent, rfl, rfl⟩
  | sessionLabel =>
    cases h
    exact Or.inl ⟨rfl, by simp, hsame rfl rfl rfl⟩
  | commands =>
    cases h
    exact Or.inl ⟨rfl, by simp, hsame rfl rfl rfl⟩
  | exit =>
    cases h
    exact Or.inl ⟨rfl, by simp, hsame rfl rfl rfl⟩
  | clock =>
    cases h
    exact Or.inl ⟨rfl, by simp, hsame rfl rfl rfl⟩
  | sleepUntil moment =>
    obtain ⟨-, h⟩ := Option.ite_none_right_eq_some.1 h
    cases h
    exact Or.inl ⟨rfl, by simp, hsame rfl rfl rfl⟩
  | pass gate =>
    obtain ⟨-, h⟩ := Option.ite_none_right_eq_some.1 h
    cases h
    exact Or.inl ⟨rfl, by simp, hsame rfl rfl rfl⟩

end World

open World

/-! ## Turns -/

namespace Deed

/-- The job that a deed submits. -/
def submission (w : World) : Deed → Option Job
  | asked th _ r reply => w.submission th r reply
  | _ => none

/-- What a deed makes of the task of a reference. -/
def change (now : Timestamp) (ref : TaskRef) : Deed → Task → Task
  | asked _ _ (.print (.capture n g) text) _ =>
    if (⟨n, g⟩ : TaskRef) = ref then fun t => t.print text else id
  | ended r record => if r.job.ref = ref then fun t => t.complete record now else id
  | _ => id

end Deed

/-- What an act can be to the jobs. -/
inductive Turn (i : Interpreter) (w : World) : Deed → World → Prop
  | still {deed : Deed} {w' : World} (hdeed : deed = .other ∨ ∃ inv, deed = .called inv)
      (h : Still w w') : Turn i w deed w'
  | asked {c : Nat} {r : Request} {reply : r.Reply} {w' : World}
      (h : w.answer i (.caller c) r = some (reply, w')) :
      Turn i w (.asked (.caller c) none r reply) w'
  | began {r : Running} {queue : List Job} {chance : Generator} {events : List Event}
      (hqueue : w.pool.queue = r.job :: queue)
      (hfree : w.pool.running.length < w.pool.workers)
      (hworker : r.worker = freeWorker w.pool.running)
      (hprevious : r.previous = Assoc.get? (.worker r.worker) w.bound)
      (hinvocation : r.invocation = ((w.bind (.worker r.worker) (some r.job.key)).beginLine i
        r.job.session r.job.line (.capture r.job.session r.job.generation)).map Prod.fst) :
      Turn i w (.began r) { w with
        bound := Assoc.put (.worker r.worker) r.job.key w.bound
        chance := chance
        events := events
        pool := { w.pool with queue := queue, running := w.pool.running ++ [r] } }
  | proceeded {r : Running} {inv : Invocation} {request : Request}
      {next : request.Reply → Script (Except Failure Json)} {reply : request.Reply} {w₁ : World}
      (hr : r ∈ w.pool.running) (hinv : r.invocation = some inv)
      (hscript : inv.script = .request request next)
      (h : w.answer i (.worker r.worker) request = some (reply, w₁)) :
      Turn i w (.asked (.worker r.worker) (some r.job) request reply)
        (w₁.updateJob r { inv with script := next reply })
  | finished {r : Running} {inv : Invocation} {outcome : Except Failure Json}
      (hr : r ∈ w.pool.running) (hinv : r.invocation = some inv)
      (hscript : inv.script = .done outcome) :
      Turn i w (.ended r (inv.record w.now outcome)) (w.finishJob r inv outcome)
  | released {r : Running} (hr : r ∈ w.pool.running) (hinv : r.invocation = none) :
      Turn i w (.ended r (blankRecord w.now)) (w.releaseJob r (blankRecord w.now))

variable {i : Interpreter} {s s' : Scene} {deed : Deed} {w w' : World} {ref : TaskRef} {job : Job}

theorem turn_began {r : Running} (h : w.startNext i = some w')
    (hrunning : w'.pool.running = w.pool.running ++ [r]) : Turn i w (.began r) w' := by
  obtain ⟨job, queue, invocation, w₁, hqueue, hfree, hbegin, rfl⟩ := startNext_cases h
  have hlast (old : w₁.pool.running = w.pool.running) :
      r = ⟨freeWorker w.pool.running, job,
        Assoc.get? (.worker (freeWorker w.pool.running)) w.bound, invocation⟩ := by
    dsimp only at hrunning
    rw [old] at hrunning
    exact (List.singleton_inj.1 (List.append_cancel_left hrunning)).symm
  rcases hbegin with ⟨hbegin, rfl, rfl⟩ | ⟨inv, rfl, hbegin⟩
  · obtain rfl := hlast rfl
    exact .began hqueue hfree rfl rfl (by rw [hbegin]; rfl)
  · obtain ⟨-, chance, added, rfl⟩ := exists_log_of_beginLine hbegin
    obtain rfl := hlast rfl
    exact .began hqueue hfree rfl rfl (by rw [hbegin]; rfl)

theorem Act.turn (h : Act i s deed s') : Turn i s.world deed s'.world := by
  have hedit (n : Nat) (e : SessionEdit) : Still s.world (s.world.modifySession n e.apply) :=
    still_modifySession (by cases e <;> rfl)
  cases h with
  | call h =>
    obtain ⟨-, chance, added, rfl⟩ := exists_log_of_beginLine h
    exact .still (Or.inr ⟨_, rfl⟩)
      ((still_locate s.world _).trans (still_of_same rfl rfl rfl))
  | invoke h =>
    obtain ⟨-, added, rfl⟩ := exists_log_of_beginCall h
    exact .still (Or.inr ⟨_, rfl⟩)
      ((still_locate s.world _).trans (still_of_same rfl rfl rfl))
  | request hwaiting hscript h => exact .asked h
  | close hwaiting hscript => exact .still (Or.inl rfl) (still_modifySession rfl)
  | ask hprint h => exact .asked h
  | begin h hrunning => exact turn_began h hrunning
  | proceed hr hinv hscript h => exact .proceeded hr hinv hscript h
  | finish hr hinv hscript => exact .finished hr hinv hscript
  | release hr hinv => exact .released hr hinv
  | bind c key => exact .still (Or.inl rfl) (still_bind s.world c key)
  | locate key => exact .still (Or.inl rfl) (still_locate s.world key)
  | forget key => exact .still (Or.inl rfl) (still_forget s.world key)
  | edit n e => exact .still (Or.inl rfl) (hedit n e)
  | openGate gate => exact .still (Or.inl rfl) (still_of_same rfl rfl rfl)
  | passTo moment => exact .still (Or.inl rfl) (still_of_same rfl rfl rfl)
  | reorder order => exact .still (Or.inl rfl) (still_of_same rfl rfl rfl)
  | start => exact .still (Or.inl rfl) (still_of_same rfl rfl rfl)
  | shutdown => exact .still (Or.inl rfl) (still_shutdown i s.world)

theorem Unfolds.turn {run : List Moment} (h : Unfolds i s run s') :
    ∀ m ∈ run, Turn i m.before m.deed m.after := by
  induction h with
  | none => exact fun _ hm => absurd hm List.not_mem_nil
  | act _ hact ih =>
    intro m hm
    rcases List.mem_append.1 hm with hm | hm
    · exact ih m hm
    · rw [List.mem_singleton.1 hm]
      exact hact.turn

/-! ## What a turn does to tasks -/

theorem change_asked {r : Request} (hprint : ∀ n g text, r ≠ .print (.capture n g) text)
    (th : Thread) (o : Option Job) (reply : r.Reply) (now : Timestamp) :
    (Deed.asked th o r reply).change now ref = id := by
  cases r with
  | print console text =>
    cases console with
    | terminal => rfl
    | capture n g => exact absurd rfl (hprint n g text)
  | _ => rfl

theorem task?_print (w : World) (n g : Nat) (text : String) (ref : TaskRef) :
    (w.print (.capture n g) text).task? ref =
      if (⟨n, g⟩ : TaskRef) = ref then (w.task? ref).map (·.print text) else w.task? ref :=
  task?_modifyTask w n g _ ref

theorem task?_releaseJob (w : World) (r : Running) (record : Record) (ref : TaskRef) :
    (w.releaseJob r record).task? ref =
      if r.job.ref = ref then (w.task? ref).map (·.complete record w.now) else w.task? ref := by
  refine Eq.trans (task?_of_sessions ?_ ref) (task?_modifyTask w _ _ _ ref)
  unfold releaseJob
  cases r.previous <;> rfl

theorem task?_answer {th : Thread} {r : Request} {reply : r.Reply}
    (h : w.answer i th r = some (reply, w'))
    (hnew : ∀ job, w.submission th r reply = some job → job.ref ≠ ref) (o : Option Job) :
    w'.task? ref = (w.task? ref).map ((Deed.asked th o r reply).change w.now ref) := by
  have hid (hprint : ∀ n g text, r ≠ .print (.capture n g) text) :
      (w.task? ref).map ((Deed.asked th o r reply).change w.now ref) = w.task? ref := by
    rw [change_asked hprint, Option.map_id, id]
  rcases answer_cases h with ⟨-, hprint, hstill, -⟩ | ⟨n, g, text, rfl, rfl⟩ | ⟨job, hjob, hsub⟩
  · rw [hstill.task?, hid hprint]
  · rw [task?_print]
    by_cases href : (⟨n, g⟩ : TaskRef) = ref <;> simp [Deed.change, href]
  · rw [hsub.others ref (hnew job hjob).symm, hid]
    rintro n g text rfl
    cases hjob

/-- Apart from the task that it may open, a turn changes tasks as its deed says. -/
theorem Turn.task? (h : Turn i w deed w')
    (hnew : ∀ job, deed.submission w = some job → job.ref ≠ ref) :
    w'.task? ref = (w.task? ref).map (deed.change w.now ref) := by
  have hended (r : Running) (record : Record) :
      (if r.job.ref = ref then (w.task? ref).map (·.complete record w.now) else w.task? ref) =
        (w.task? ref).map ((Deed.ended r record).change w.now ref) := by
    by_cases href : r.job.ref = ref <;> simp [Deed.change, href]
  cases h with
  | still hdeed h =>
    rw [h.task?]
    rcases hdeed with rfl | ⟨inv, rfl⟩ <;> exact (congrFun Option.map_id _).symm
  | asked h => exact task?_answer h hnew none
  | began => exact (congrFun Option.map_id _).symm
  | proceeded hr hinv hscript h => exact (task?_of_sessions rfl ref).trans (task?_answer h hnew _)
  | @finished r inv outcome hr hinv hscript =>
    rw [← hended, finishJob, task?_releaseJob]
    have hrecord : (w.finishCall inv outcome).2.task? ref = w.task? ref :=
      task?_modifySession_of_same rfl ref
    rw [hrecord]
    rfl
  | @released r hr hinv => rw [← hended, task?_releaseJob]

/-- A turn that submits a job opens a task for it. -/
theorem Turn.submits (h : Turn i w deed w') (hjob : deed.submission w = some job) :
    w.task? job.ref = none ∧ Text.allBlank job.line.toList = false ∧ w.pool.stopped = false ∧
      (w.Sound → ∃ t, w'.task? job.ref = some t ∧ t.line = job.line ∧ t.record? = none ∧
        t.output = .empty i.settings.outputLimit.toNat) := by
  have hanswer {th : Thread} {r : Request} {reply : r.Reply} {w₁ : World}
      (h : w.answer i th r = some (reply, w₁)) (hjob : w.submission th r reply = some job) :
      Submits i w job w₁ := by
    rcases answer_cases h with ⟨hnone, -⟩ | ⟨n, g, text, rfl, rfl⟩ | ⟨job', hjob', hsub⟩
    · rw [hnone] at hjob
      cases hjob
    · cases hjob
    · rw [hjob] at hjob'
      cases hjob'
      exact hsub
  cases h with
  | still hdeed h => rcases hdeed with rfl | ⟨inv, rfl⟩ <;> cases hjob
  | asked h =>
    have hsub := hanswer h hjob
    exact ⟨hsub.fresh, hsub.line, hsub.unstopped, hsub.opened⟩
  | proceeded hr hinv hscript h =>
    have hsub := hanswer h hjob
    exact ⟨hsub.fresh, hsub.line, hsub.unstopped, hsub.opened⟩
  | began => cases hjob
  | finished => cases hjob
  | released => cases hjob

/-! ## What a turn does to the queue -/

namespace Deed

/-- The job that a deed takes off the queue. -/
def begun? : Deed → Option Job
  | began r => some r.job
  | _ => none

end Deed

theorem answer_pool {th : Thread} {r : Request} {reply : r.Reply}
    (h : w.answer i th r = some (reply, w')) : w'.bound = w.bound ∧
      w'.pool = { w.pool with queue := w.pool.queue ++ (w.submission th r reply).toList } := by
  rcases answer_cases h with ⟨hnone, -, -, hbound, hpool⟩ | ⟨n, g, text, rfl, rfl⟩ |
    ⟨job, hjob, hsub⟩
  · rw [hnone, hpool]
    exact ⟨hbound, by simp⟩
  · exact ⟨rfl, by simp [submission, print, modifySession]⟩
  · rw [hjob]
    exact ⟨hsub.bound, hsub.pool⟩

/-- Ending a job is quiet, but for the worker that it frees. -/
theorem exists_quiet_releaseJob (w : World) (r : Running) (record : Record) :
    ∃ w₁, Quiet w w₁ ∧ Assoc.get? (.worker r.worker) w₁.bound = r.previous ∧
      (∀ k, k ≠ r.worker →
        Assoc.get? (.worker k) w₁.bound = Assoc.get? (.worker k) w.bound) ∧
      w.releaseJob r record = { w₁ with pool :=
        { w.pool with running := w.pool.running.filter fun q => q.worker ≠ r.worker } } := by
  have hcomplete : Quiet w (w.modifySession r.job.session fun s => { s with
      tasks := s.tasks.complete r.job.generation record w.now }) :=
    quiet_modifySession w r.job.session fun _ => ⟨rfl, rfl, rfl⟩
  refine ⟨_, hcomplete.trans (quiet_bind _ (.worker r.worker) r.previous), ?_, fun k hk => ?_, ?_⟩
  · cases hprevious : r.previous with
    | none => exact Assoc.get?_erase_self _ _
    | some key => exact Assoc.get?_put_self _ _ _
  · have hne : Thread.worker k ≠ .worker r.worker := by simpa using hk
    cases hprevious : r.previous with
    | none => exact Assoc.get?_erase_of_ne hne _
    | some key => exact Assoc.get?_put_of_ne hne _ _
  · unfold releaseJob
    cases r.previous <;> rfl

theorem sound_releaseJob (hw : w.Sound) (r : Running) (record : Record) :
    (w.releaseJob r record).Sound := by
  obtain ⟨w₁, hquiet, -, -, heq⟩ := exists_quiet_releaseJob w r record
  have hlen := hquiet.sessions
  rw [heq]
  exact ⟨(hquiet.sound hw).known, fun job hjob => Nat.lt_of_lt_of_le (hw.queued job hjob) hlen⟩

theorem pool_releaseJob (w : World) (r : Running) (record : Record) :
    (w.releaseJob r record).pool =
      { w.pool with running := w.pool.running.filter fun q => q.worker ≠ r.worker } := by
  obtain ⟨w₁, -, -, -, heq⟩ := exists_quiet_releaseJob w r record
  rw [heq]

/-- A call that a worker is at work on after a turn was under way before, or the worker has just
begun it for its job. -/
theorem Turn.running (h : Turn i w deed w') {q : Running} (hq : q ∈ w'.pool.running)
    {inv : Invocation} (hinv : q.invocation = some inv) :
    (∃ r ∈ w.pool.running, ∃ inv', r.invocation = some inv' ∧ inv.toCall = inv'.toCall) ∨
      ∃ typed rawArgs v, inv.toCall = newCall i q.job.session typed rawArgs v := by
  have hold (hq : q ∈ w.pool.running) :
      ∃ r ∈ w.pool.running, ∃ inv', r.invocation = some inv' ∧ inv.toCall = inv'.toCall :=
    ⟨q, hq, inv, hinv, rfl⟩
  cases h with
  | still hdeed h => exact Or.inl (hold (h.running ▸ hq))
  | asked h => exact Or.inl (hold ((quiet_answer h).running ▸ hq))
  | began hqueue hfree hworker hprevious hinvocation =>
    rcases List.mem_append.1 hq with hq | hq
    · exact Or.inl (hold hq)
    · obtain rfl := List.mem_singleton.1 hq
      rw [hinvocation] at hinv
      obtain ⟨begun, hbegin, rfl⟩ := Option.map_eq_some_iff.1 hinv
      exact Or.inr (exists_newCall_of_beginLine hbegin)
  | @proceeded r inv' _ _ _ _ hr hinv' hscript h =>
    obtain ⟨p, hp, rfl⟩ := List.mem_map.1 hq
    rw [(quiet_answer h).running] at hp
    split at hinv
    · cases hinv
      exact Or.inl ⟨r, hr, inv', hinv', rfl⟩
    · exact Or.inl ⟨p, hp, inv, hinv, rfl⟩
  | finished hr hinv' hscript =>
    rw [finishJob, pool_releaseJob] at hq
    exact Or.inl (hold (List.mem_filter.1 hq).1)
  | released hr hinv' =>
    rw [pool_releaseJob] at hq
    exact Or.inl (hold (List.mem_filter.1 hq).1)

theorem Turn.sound (h : Turn i w deed w') (hw : w.Sound) : w'.Sound := by
  cases h with
  | still hdeed h => exact h.sound hw
  | asked h => exact (quiet_answer h).sound hw
  | began hqueue => exact ⟨hw.known, fun job hjob => hw.queued job (by simp [hqueue, hjob])⟩
  | proceeded hr hinv hscript h =>
    have h := (quiet_answer h).sound hw
    exact ⟨h.known, h.queued⟩
  | @finished r inv outcome hr hinv hscript =>
    have hrecord : Silent w (w.finishCall inv outcome).2 := silent_modifySession w _ fun _ => rfl
    exact sound_releaseJob (hrecord.sound hw) r _
  | released hr hinv => exact sound_releaseJob hw _ _

/-- The queue loses the job that a turn takes up and gets the one that it submits, or it is
dropped as the pool stops. -/
theorem Turn.queue (h : Turn i w deed w') :
    (deed.begun?.toList ++ w'.pool.queue = w.pool.queue ++ (deed.submission w).toList ∧
      w'.pool.stopped = w.pool.stopped) ∨
    (deed.begun? = none ∧ deed.submission w = none ∧ w'.pool.queue = [] ∧
      w'.pool.stopped = true) := by
  cases h with
  | still hdeed h =>
    rcases hdeed with rfl | ⟨inv, rfl⟩
    · rcases h.queue with ⟨hqueue, hstopped⟩ | ⟨hqueue, hstopped⟩
      · exact Or.inl ⟨by simp [Deed.begun?, Deed.submission, hqueue], hstopped⟩
      · exact Or.inr ⟨rfl, rfl, hqueue, hstopped⟩
    · rcases h.queue with ⟨hqueue, hstopped⟩ | ⟨hqueue, hstopped⟩
      · exact Or.inl ⟨by simp [Deed.begun?, Deed.submission, hqueue], hstopped⟩
      · exact Or.inr ⟨rfl, rfl, hqueue, hstopped⟩
  | asked h =>
    rw [(answer_pool h).2]
    exact Or.inl ⟨rfl, rfl⟩
  | began hqueue => exact Or.inl ⟨by simp [Deed.begun?, Deed.submission, hqueue], rfl⟩
  | @proceeded r inv request next reply w₁ hr hinv hscript h =>
    have hpool := (answer_pool h).2
    have hqueue : w₁.pool.queue =
        w.pool.queue ++ (w.submission (.worker r.worker) request reply).toList := by rw [hpool]
    have hstopped : w₁.pool.stopped = w.pool.stopped := by rw [hpool]
    exact Or.inl ⟨hqueue, hstopped⟩
  | finished hr hinv hscript =>
    rw [finishJob, pool_releaseJob]
    exact Or.inl ⟨by simp [Deed.begun?, Deed.submission, finishCall, modifySession], rfl⟩
  | released hr hinv =>
    rw [pool_releaseJob]
    exact Or.inl ⟨by simp [Deed.begun?, Deed.submission], rfl⟩

end CommandShell
