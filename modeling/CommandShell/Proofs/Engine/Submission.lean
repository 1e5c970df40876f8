import CommandShell.Proofs.Engine.Determined
/-!
# From a submission to the end of its job

A call that submits a line leaves a job in the queue, with a task of which nothing was captured
yet.  When that task has come to its record, the job has gone its whole course since, and what the
task has captured is what the job printed.

    nextTask w th, nextJob w th line   the task and the job of the next submission
    Launches i s job run w'            a caller's call has submitted the job
    such a call submits the next job                                     (exists_launches)
    and the job has gone its course when its task is done                (Launches.course)
-/

namespace CommandShell

open CommandShell.Text World

namespace World

variable {i : Interpreter} {th : Thread} {w wa : World}

/-- The task that a submission opens. -/
def nextTask (w : World) (th : Thread) : TaskRef :=
  ⟨(w.current th).1, ((w.current th).2.session (w.current th).1).tasks.tasks.length + 1⟩

/-- The job that is submitted for a line. -/
def nextJob (w : World) (th : Thread) (line : String) : Job :=
  ⟨(w.nextTask th).session, (w.nextTask th).generation, w.currentKey th, line⟩

theorem exists_submit (i : Interpreter) (th : Thread) {line : String} (task : String)
    (hline : allBlank line.toList = false) (hstopped : w.pool.stopped = false) :
    ∃ w', w.submit i th task line = (.ok (w.nextTask th), w') := by
  have hpool : (w.locate (w.currentKey th)).2.pool.stopped = false := hstopped
  unfold World.submit
  rw [if_neg (by simp [hline])]
  dsimp only
  rw [if_neg (by simp [hpool])]
  exact ⟨_, rfl⟩

/-- Once its call has begun, a thread acts in the session in which the call was made. -/
theorem current_of_beginLine {line : String} {console : Console} {inv : Invocation}
    (h : (w.current th).2.beginLine i (w.current th).1 line console = some (inv, wa)) :
    wa.current th = ((w.current th).1, wa) ∧ wa.currentKey th = w.currentKey th ∧
      wa.nextTask th = w.nextTask th ∧ wa.seen th = w.seen th ∧ wa.terminal = w.terminal ∧
      wa.pool = w.pool ∧ (w.Sound → wa.Sound) := by
  obtain ⟨-, chance, added, rfl⟩ := exists_log_of_beginLine h
  have hcurrent : World.current _ th = ((w.current th).1,
      { (w.current th).2 with
        chance := chance
        events := (w.current th).2.events ++ added }) :=
    locate_of_number (number?_locate w (w.currentKey th))
  refine ⟨hcurrent, rfl, ?_, ?_, rfl, rfl, fun hw => ?_⟩
  · rw [nextTask, hcurrent]
    rfl
  · rw [World.seen, hcurrent]
    rfl
  · have hsound := (quiet_current w th).sound hw
    exact ⟨hsound.known, hsound.queued⟩

end World

/-- Whatever callers called for was a line. -/
def ByLines (i : Interpreter) (run : List Moment) : Prop :=
  ∀ m ∈ run, ∀ inv, m.deed = .called inv → ∃ c line,
    (m.before.current (.caller c)).2.beginLine i (m.before.current (.caller c)).1 line .terminal =
      some (inv, m.after)

variable {i : Interpreter} {s : Scene} {c : Nat} {wa : World}

theorem ByLines.append {run more : List Moment} (h : ByLines i run) (hmore : ByLines i more) :
    ByLines i (run ++ more) := by
  intro m hm
  rcases List.mem_append.1 hm with hm | hm
  · exact h m hm
  · exact hmore m hm

/-- A caller had a task opened: what was done, and where that leaves the job. -/
structure Launches (i : Interpreter) (s : Scene) (job : Job) (run : List Moment) (w' : World) :
    Prop where
  unfolds : Unfolds i s run ⟨w', s.waiting⟩
  byLines : ByLines i run
  submits : job ∈ submitted run
  queued : job ∈ w'.pool.queue
  task : s.world.Sound → ∃ t, w'.task? job.ref = some t ∧
    t.output = .empty i.settings.outputLimit.toNat

/-- A line whose call submits another one and ends leaves a job in the queue. -/
theorem exists_launches {line task behind : String} {inv : Invocation}
    {next : (Request.submit task behind).Reply → Script (Except Failure Json)}
    {outcome : Nat → Except Failure Json}
    (hbegin : (s.world.current (.caller c)).2.beginLine i (s.world.current (.caller c)).1 line
      .terminal = some (inv, wa))
    (hscript : inv.script = .request (.submit task behind) next)
    (hnext : ∀ generation, next (.ok generation) = .done (outcome generation))
    (hblank : allBlank behind.toList = false) (hstopped : s.world.pool.stopped = false) :
    ∃ run r w', s.world.execute i (.caller c) line = (.finished r, w') ∧
      r.outcome = outcome (s.world.nextTask (.caller c)).generation ∧
      Launches i s (s.world.nextJob (.caller c) behind) run w' := by
  obtain ⟨hcurrent, hkey, htask, -, -, hpool, hsound⟩ := current_of_beginLine hbegin
  obtain ⟨wb, hsubmit⟩ := exists_submit i (.caller c) task hblank (hpool ▸ hstopped)
  have hsubmits := submits_of_submit hsubmit
  rw [htask] at hsubmit
  rw [htask, hkey, hcurrent] at hsubmits
  have hreply : wa.answer i (.caller c) (.submit task behind) =
      some (.ok (s.world.nextTask (.caller c)).generation, wb) := by
    simp only [World.answer, hsubmit]
    rfl
  obtain ⟨call, script⟩ := inv
  obtain rfl : script = .request _ next := hscript
  have hexecute : s.world.execute i (.caller c) line = wb.runCall i (.caller c)
      ⟨call, next (.ok (s.world.nextTask (.caller c)).generation)⟩ := by
    simp only [World.execute, World.dispatch, hbegin]
    exact runCall_of_answer hreply
  rw [hnext, runCall_of_done] at hexecute
  refine ⟨[⟨s.world, .called ⟨call, .request _ next⟩, wa⟩,
    ⟨wa, .asked (.caller c) none (.submit task behind)
      (.ok (s.world.nextTask (.caller c)).generation), wb⟩,
    ⟨wb, .other, (wb.finishCall ⟨call, next (.ok (s.world.nextTask (.caller c)).generation)⟩
      (outcome (s.world.nextTask (.caller c)).generation)).2⟩], _, _, hexecute, rfl, ?_⟩
  have hask := Act.request (i := i) (s := ⟨wa, s.waiting ++ [(.caller c, ⟨call, .request _ next⟩)]⟩)
    rfl rfl hreply
  have hclose := Act.close (i := i) (s := ⟨wb, s.waiting ++ [] ++
    [(.caller c, ⟨call, next (.ok (s.world.nextTask (.caller c)).generation)⟩)]⟩) rfl (hnext _)
  have hunfolds := (Act.call hbegin).unfolds.trans (hask.unfolds.trans hclose.unfolds)
  rw [List.append_nil, List.append_nil] at hunfolds
  exact {
    unfolds := hunfolds
    byLines := by
      intro m hm inv hinv
      simp only [List.mem_cons, List.not_mem_nil, or_false] at hm
      rcases hm with rfl | rfl | rfl
      · cases hinv
        exact ⟨c, line, hbegin⟩
      · cases hinv
      · cases hinv
    submits := by
      refine List.mem_filterMap.2 ⟨_, List.mem_cons_of_mem _ List.mem_cons_self, ?_⟩
      simp only [Deed.submission, World.submission, hcurrent, hkey]
      rfl
    queued := by
      have hqueue := congrArg Pool.queue hsubmits.pool
      simp only [modifySession, hqueue]
      exact List.mem_append_right _ List.mem_cons_self
    task := fun hs => by
      obtain ⟨t, ht, -, -, houtput⟩ := hsubmits.opened (hsound hs)
      refine ⟨t, ?_, houtput⟩
      rw [task?_modifySession_of_same rfl]
      exact ht }

/-- A job that was launched and has come to its record went its whole course since, and what its
task has captured is what was done to the capture on the way. -/
theorem Launches.course {now : Timestamp} {seed : Nat} {run run' more : List Moment}
    {s₂ : Scene} {w' : World} {job : Job} {task : Task} {r : Record}
    (hl : Launches i s job run' w') (h : Unfolds i (.initial i now seed) run s)
    (hmore : Unfolds i ⟨w', s.waiting⟩ more s₂)
    (hkeeps : ∀ m ∈ run ++ run' ++ more, m.deed.KeepsToConsole)
    (htask : s₂.world.task? job.ref = some task) (hrecord : task.record? = some r) :
    Course i job (momentsOf job.ref more) (.finished r) ∧
      task.output = ((momentsOf job.ref more).flatMap fun m => m.deed.captures job.ref).foldl
        Capture.apply (.empty i.settings.outputLimit.toNat) := by
  have hlaunched := h.trans hl.unfolds
  have hall := hlaunched.trans hmore
  have hmem : job ∈ submitted (run ++ run') := by
    rw [submitted, List.filterMap_append]
    exact List.mem_append_right _ hl.submits
  have hlater : job ∈ submitted (run ++ run' ++ more) := by
    rw [submitted, List.filterMap_append]
    exact List.mem_append_left _ hmem
  -- The job has no moments before it is begun, and it waits in the queue.
  have hstaffed := staffed_unfolds hlaunched
  have hidle : momentsOf job.ref (run ++ run') = [] := by
    refine (hstaffed.queued hmem fun hbegun => ?_).1
    have hnodup := (List.Nodup.of_map _ hstaffed.refs).sublist hstaffed.served.sublist
    exact (List.nodup_append.1 hnodup).2.2 job hbegun job hl.queued rfl
  have hmoments : momentsOf job.ref (run ++ run' ++ more) = momentsOf job.ref more := by
    rw [momentsOf, List.filter_append, ← momentsOf, hidle, List.nil_append, momentsOf]
  obtain ⟨stage, hcourse, -⟩ := (staffed_unfolds hall).stages job hlater
  obtain ⟨t, ht, -, htrecord, houtput⟩ := tasks_unfolds hall job hlater
  rw [htask] at ht
  obtain rfl := Option.some.inj ht
  rw [hmoments] at hcourse htrecord
  have hstage : stage = .finished r := by
    rw [htrecord, hcourse.record?] at hrecord
    cases stage with
    | finished record => rw [Option.some.inj hrecord]
    | _ => cases hrecord
  rw [hstage] at hcourse
  refine ⟨hcourse, ?_⟩
  have hown := (onOwn_unfolds hall hkeeps).2.2
  obtain ⟨t', ht', -, -, houtput'⟩ := tasks_unfolds hlaunched job hmem
  obtain ⟨t₀, ht₀, hempty⟩ := hl.task (staffed_unfolds h).sound
  rw [ht'] at ht₀
  obtain rfl := Option.some.inj ht₀
  rw [houtput, captured_append hmem, Capture.run, List.foldl_append, ← Capture.run, ← houtput',
    hempty, flatMap_captures fun m hm => hown m (List.mem_append_right _ hm)]

end CommandShell
