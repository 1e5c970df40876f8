import CommandShell.Proofs.Engine.Jobs
import CommandShell.Shell.Commands
/-!
# Background jobs stay apart

Jobs of any sessions run side by side, and whoever looks at a task sees what became of its own
job: its record, once there is one, and what was printed on its console since it was submitted.

    captured ref run       what was done to the capture of a task, in order
    Script.PrintsOn ok s   the script prints on these consoles only
    Apart i run w          no two jobs of a run are mixed up, and no job is lost
    every interleaving keeps the jobs apart                                 (jobs_stay_apart)
-/

namespace CommandShell

open World

namespace Deed

/-- What a deed does to the capture of a task. -/
def captures (ref : TaskRef) : Deed → List Capture.Op
  | asked _ _ (.print (.capture n g) text) _ =>
    if (⟨n, g⟩ : TaskRef) = ref then [.write text] else []
  | ended r _ => if r.job.ref = ref then [.finish] else []
  | _ => []

/-- The record with which a deed ends a job. -/
def record? : Deed → Option Record
  | ended _ record => some record
  | _ => none

end Deed

/-- Whether a moment submits the job of a task. -/
def Moment.submits (ref : TaskRef) (m : Moment) : Bool :=
  (m.deed.submission m.before).any fun job => job.ref = ref

/-- What was done to the capture of a task since its job was submitted. -/
def captured (ref : TaskRef) (run : List Moment) : List Capture.Op :=
  (run.dropWhile fun m => !m.submits ref).flatMap fun m => m.deed.captures ref

/-- The record with which a job came to its end. -/
def recordOf (moments : List Moment) : Option Record := moments.findSome? fun m => m.deed.record?

variable {i : Interpreter} {run moments : List Moment} {m : Moment} {w w' : World} {deed : Deed}
  {job : Job} {stage : Stage} {ref : TaskRef} {t : Task}

/-! ## Output and record of a task -/

theorem recordOf_concat (moments : List Moment) (m : Moment) :
    recordOf (moments ++ [m]) = (recordOf moments).or m.deed.record? := by
  rw [recordOf, List.findSome?_append]
  cases h : m.deed.record? <;> simp [recordOf, h]

theorem Course.record? (h : Course i job moments stage) : recordOf moments = stage.record? := by
  induction h with
  | queued => rfl
  | began hdeed => simp [recordOf, hdeed, Deed.record?, Stage.record?]
  | asked h _ _ hdeed _ _ _ _ ih => rw [recordOf_concat, ih, hdeed]; rfl
  | ended h _ _ _ hdeed _ _ _ _ ih => rw [recordOf_concat, ih, hdeed]; rfl

theorem captured_append (h : job ∈ submitted run) (more : List Moment) :
    captured job.ref (run ++ more) =
      captured job.ref run ++ more.flatMap fun m => m.deed.captures job.ref := by
  have hthere : (run.dropWhile fun m => !m.submits job.ref).isEmpty = false := by
    obtain ⟨m, hm, hjob⟩ := List.mem_filterMap.1 h
    rw [List.isEmpty_eq_false_iff, Ne, List.dropWhile_eq_nil_iff]
    intro hnone
    have := hnone m hm
    simp [Moment.submits, hjob] at this
  rw [captured, List.dropWhile_append, hthere]
  simp [captured]

/-- Nothing was captured yet at the moment of submission. -/
theorem captured_new (hnew : ∀ other ∈ submitted run, other.ref ≠ job.ref)
    (hm : m.deed.submission m.before = some job) : captured job.ref (run ++ [m]) = [] := by
  have hnone : run.dropWhile (fun m => !m.submits job.ref) = [] := by
    refine List.dropWhile_eq_nil_iff.2 fun m hm => ?_
    unfold Moment.submits
    cases hother : m.deed.submission m.before with
    | none => rfl
    | some other => simpa using hnew other (List.mem_filterMap.2 ⟨m, hm, hother⟩)
  have hself : m.submits job.ref = true := by simp [Moment.submits, hm]
  have hcaptures : m.deed.captures job.ref = [] := by
    obtain ⟨before, deed, after⟩ := m
    cases deed with
    | asked th o r reply =>
      cases r with
      | submit task line => rfl
      | _ => cases hm
    | _ => cases hm
  rw [captured, List.dropWhile_append, hnone]
  simp [hself, hcaptures]

theorem Task.complete_of_running (h : t.record? = none) (record : Record) (now : Timestamp) :
    (t.complete record now).line = t.line ∧ (t.complete record now).output = t.output.finish ∧
      (t.complete record now).record? = some record := by
  have hrunning : t.isDone = false := by
    rw [Task.isDone, ← Option.isSome_map, ← Task.record?, h]
    rfl
  unfold Task.complete
  rw [hrunning]
  exact ⟨rfl, rfl, rfl⟩

/-- What a deed makes of a task that is not completed, or that it does not complete. -/
theorem change_task (hended : ∀ r record, deed = .ended r record → r.job.ref = ref →
    t.record? = none) (now : Timestamp) :
    (deed.change now ref t).line = t.line ∧
      (deed.change now ref t).output = (deed.captures ref).foldl Capture.apply t.output ∧
      (deed.change now ref t).record? =
        t.record?.or (if deed.job?.map Job.ref = some ref then deed.record? else none) := by
  cases deed with
  | asked th o r reply =>
    cases r with
    | print console text =>
      cases console with
      | terminal => simp [Deed.change, Deed.captures, Deed.record?]
      | capture n g =>
        by_cases href : (⟨n, g⟩ : TaskRef) = ref <;>
          simp [Deed.change, Deed.captures, Deed.record?, href, Task.print, Capture.apply,
            Task.record?]
    | _ => simp [Deed.change, Deed.captures, Deed.record?]
  | ended r record =>
    by_cases href : r.job.ref = ref
    · have hrunning := hended r record rfl href
      obtain ⟨hline, houtput, hrecord⟩ := Task.complete_of_running hrunning record now
      simp [Deed.change, Deed.captures, Deed.record?, Deed.job?, href, hline, houtput, hrecord,
        hrunning, Capture.apply]
    · simp [Deed.change, Deed.captures, Deed.job?, href]
  | _ => simp [Deed.change, Deed.captures, Deed.record?]

/-- The task of every job holds the record of the job, once it is over, and what was printed. -/
def Tasks (i : Interpreter) (run : List Moment) (w : World) : Prop :=
  ∀ job ∈ submitted run, ∃ t, w.task? job.ref = some t ∧ t.line = job.line ∧
    t.record? = recordOf (momentsOf job.ref run) ∧
    t.output = Capture.run i.settings.outputLimit.toNat (captured job.ref run)

theorem recordOf_momentsOf_concat (ref : TaskRef) (run : List Moment) (m : Moment) :
    recordOf (momentsOf ref (run ++ [m])) = (recordOf (momentsOf ref run)).or
      (if m.deed.job?.map Job.ref = some ref then m.deed.record? else none) := by
  have hiff : m.isOf ref = true ↔ m.deed.job?.map Job.ref = some ref := by
    unfold Moment.isOf
    cases m.deed.job? <;> simp
  by_cases hof : m.isOf ref = true
  · rw [momentsOf_concat_of_isOf hof, recordOf_concat, if_pos (hiff.1 hof)]
  · rw [momentsOf_concat_of_not (Bool.eq_false_iff.2 hof), if_neg (mt hiff.2 hof), Option.or_none]

/-- A job that is ended had no record. -/
theorem Staffed.recordOf_ended (h : Staffed i run w) {r : Running} {record : Record}
    (hturn : Turn i w (.ended r record) w') :
    r.job ∈ submitted run ∧ recordOf (momentsOf r.job.ref run) = none := by
  have hr : r ∈ w.pool.running := by
    cases hturn with
    | still hdeed => rcases hdeed with hdeed | ⟨inv, hdeed⟩ <;> cases hdeed
    | finished hr => exact hr
    | released hr => exact hr
  exact ⟨h.mem_submitted hr, (h.underway hr).record?⟩

theorem Tasks.act (htasks : Tasks i run w) (h : Staffed i run w) (hturn : Turn i w deed w') :
    Tasks i (run ++ [⟨w, deed, w'⟩]) w' := by
  intro job hjob
  rcases mem_submitted_concat.1 hjob with hjob | hjob
  · obtain ⟨t, ht, hline, hrecord, houtput⟩ := htasks job hjob
    have hended : ∀ r record, deed = .ended r record → r.job.ref = job.ref → t.record? = none := by
      rintro r record rfl href
      obtain ⟨hmem, hnone⟩ := h.recordOf_ended hturn
      rw [hrecord, ← href]
      exact hnone
    obtain ⟨hline', houtput', hrecord'⟩ := change_task hended w.now
    refine ⟨deed.change w.now job.ref t, ?_, hline'.trans hline, ?_, ?_⟩
    · rw [hturn.task? fun other hother => h.ref_ne hturn hjob hother, ht]
      rfl
    · rw [hrecord', recordOf_momentsOf_concat, hrecord]
    · rw [houtput', houtput, captured_append hjob, List.flatMap_singleton]
      exact List.foldl_append.symm
  · obtain ⟨t, ht, hline, hrecord, houtput⟩ := (hturn.submits hjob).2.2.2 h.sound
    refine ⟨t, ht, hline, ?_, ?_⟩
    · rw [hrecord, h.momentsOf_new hturn hjob]
      rfl
    · rw [houtput, captured_new (fun other hother => (h.ref_ne hturn hother hjob).symm) hjob]
      rfl

theorem tasks_unfolds {now : Timestamp} {seed : Nat} {s : Scene}
    (h : Unfolds i (.initial i now seed) run s) : Tasks i run s.world := by
  induction h with
  | none => exact fun _ hjob => absurd hjob List.not_mem_nil
  | act hrun hact ih => exact ih.act (staffed_unfolds hrun) hact.turn

/-! ## Consoles -/

/-- A script that prints on some consoles only, whatever it is answered. -/
inductive Script.PrintsOn {α : Type} (ok : Console → Prop) : Script α → Prop
  | done (a : α) : PrintsOn ok (.done a)
  | request {r : Request} {next : r.Reply → Script α}
      (hprint : ∀ console text, r = .print console text → ok console)
      (h : ∀ reply, PrintsOn ok (next reply)) : PrintsOn ok (.request r next)

/-- The consoles of a job: the capture of its task, and the terminal. -/
def Job.Console (job : Job) (console : CommandShell.Console) : Prop :=
  console = .terminal ∨ console = .capture job.session job.generation

/-- A call that was begun prints on no capture but that of its own job. -/
def Deed.KeepsToConsole : Deed → Prop
  | called inv => inv.script.PrintsOn (· = .terminal)
  | began r => ∀ inv, r.invocation = some inv → inv.script.PrintsOn r.job.Console
  | _ => True

theorem Script.PrintsOn.next {α : Type} {ok : Console → Prop} {s : Script α} {r : Request}
    {next : r.Reply → Script α} (h : s.PrintsOn ok) (hs : s = .request r next) :
    (∀ console text, r = .print console text → ok console) ∧
      ∀ reply, (next reply).PrintsOn ok := by
  subst hs
  cases h with
  | request hprint h => exact ⟨hprint, h⟩

/-- The jobs under way print on consoles of their own. -/
def JobsOnOwn (w : World) : Prop :=
  ∀ r ∈ w.pool.running, ∀ inv, r.invocation = some inv → inv.script.PrintsOn r.job.Console

/-- The calls that wait print on the terminal. -/
def CallsOnOwn (s : Scene) : Prop :=
  ∀ p ∈ s.waiting, p.2.script.PrintsOn (· = .terminal)

variable {s s' : Scene}

theorem JobsOnOwn.turn (h : JobsOnOwn w) (hw : Staffed i run w) (hturn : Turn i w deed w')
    (hkeeps : deed.KeepsToConsole) : JobsOnOwn w' ∧
      ∀ th job n g text u, deed = .asked th (some job) (.print (.capture n g) text) u →
        job.ref = ⟨n, g⟩ := by
  cases hturn with
  | still hdeed hstill =>
    refine ⟨?_, ?_⟩
    · unfold JobsOnOwn
      rw [hstill.running]
      exact h
    · rintro th job n g text u rfl
      rcases hdeed with hdeed | ⟨inv, hdeed⟩ <;> cases hdeed
  | asked hanswer =>
    refine ⟨?_, fun _ _ _ _ _ _ heq => by cases heq⟩
    unfold JobsOnOwn
    rw [(answer_pool hanswer).2]
    exact h
  | began =>
    refine ⟨fun r hr => ?_, fun _ _ _ _ _ _ heq => by cases heq⟩
    rcases List.mem_append.1 hr with hr | hr
    · exact h r hr
    · rw [List.mem_singleton.1 hr]
      exact hkeeps
  | @proceeded r inv request next reply w₁ hr hinv hscript hanswer =>
    obtain ⟨hprint, hnext⟩ := (h r hr inv hinv).next hscript
    refine ⟨fun q hq inv' hinv' => ?_, ?_⟩
    · obtain ⟨p, hp, rfl⟩ := List.mem_map.1 hq
      rw [(answer_pool hanswer).2] at hp
      split at hinv'
      · next hsame =>
        obtain rfl := hw.eq_of_worker hp hr hsame
        obtain rfl := Option.some.inj hinv'
        rw [if_pos rfl]
        exact hnext reply
      · next hother =>
        rw [if_neg hother]
        exact h p hp inv' hinv'
    · rintro th job n g text u heq
      cases heq
      rcases hprint _ _ rfl with hconsole | hconsole
      · cases hconsole
      · cases hconsole
        rfl
  | finished hr hinv hscript =>
    refine ⟨?_, fun _ _ _ _ _ _ heq => by cases heq⟩
    unfold JobsOnOwn
    rw [finishJob, pool_releaseJob]
    exact fun q hq => h q (List.mem_of_mem_filter hq)
  | released hr hinv =>
    refine ⟨?_, fun _ _ _ _ _ _ heq => by cases heq⟩
    unfold JobsOnOwn
    rw [pool_releaseJob]
    exact fun q hq => h q (List.mem_of_mem_filter hq)

theorem CallsOnOwn.act (h : CallsOnOwn s) (hact : Act i s deed s')
    (hkeeps : deed.KeepsToConsole) : CallsOnOwn s' ∧
      ∀ th n g text u, deed ≠ .asked th none (.print (.capture n g) text) u := by
  have hadd {waiting : List (Thread × Invocation)} {p : Thread × Invocation}
      (hold : ∀ q ∈ waiting, q.2.script.PrintsOn (· = .terminal))
      (hnew : p.2.script.PrintsOn (· = .terminal)) :
      ∀ q ∈ waiting ++ [p], q.2.script.PrintsOn (· = .terminal) := by
    intro q hq
    rcases List.mem_append.1 hq with hq | hq
    · exact hold q hq
    · rw [List.mem_singleton.1 hq]
      exact hnew
  have hrest {before after : List (Thread × Invocation)} {p : Thread × Invocation}
      (hwaiting : s.waiting = before ++ p :: after) :
      p.2.script.PrintsOn (· = .terminal) ∧
        ∀ q ∈ before ++ after, q.2.script.PrintsOn (· = .terminal) := by
    refine ⟨h p ?_, fun q hq => h q (Scene.mem_waiting hwaiting hq)⟩
    rw [hwaiting]
    exact List.mem_append_right _ List.mem_cons_self
  cases hact with
  | call hbegin => exact ⟨hadd h hkeeps, fun _ _ _ _ _ heq => by cases heq⟩
  | invoke hbegin => exact ⟨hadd h hkeeps, fun _ _ _ _ _ heq => by cases heq⟩
  | request hwaiting hscript hanswer =>
    obtain ⟨hself, hothers⟩ := hrest hwaiting
    obtain ⟨hprint, hnext⟩ := hself.next hscript
    refine ⟨hadd hothers (hnext _), ?_⟩
    rintro th n g text u heq
    cases heq
    cases hprint _ _ rfl
  | close hwaiting hscript =>
    exact ⟨(hrest hwaiting).2, fun _ _ _ _ _ heq => by cases heq⟩
  | ask hprint hanswer =>
    refine ⟨h, ?_⟩
    rintro th n g text u heq
    cases heq
    exact hprint _ _ rfl
  | _ => exact ⟨h, fun _ _ _ _ _ heq => by cases heq⟩

/-- If every call keeps to its console, so does every deed. -/
theorem onOwn_unfolds {now : Timestamp} {seed : Nat} (h : Unfolds i (.initial i now seed) run s)
    (hkeeps : ∀ m ∈ run, m.deed.KeepsToConsole) :
    JobsOnOwn s.world ∧ CallsOnOwn s ∧
      ∀ m ∈ run, ∀ th o n g text u, m.deed = .asked th o (.print (.capture n g) text) u →
        o.map Job.ref = some ⟨n, g⟩ := by
  induction h with
  | none =>
    exact ⟨fun _ hr => absurd hr List.not_mem_nil, fun _ hp => absurd hp List.not_mem_nil,
      fun _ hm => absurd hm List.not_mem_nil⟩
  | act hrun hact ih =>
    obtain ⟨hjobs, hcalls, hmoments⟩ := ih fun m hm => hkeeps m (List.mem_append_left _ hm)
    have hlast := hkeeps _ (List.mem_append_right _ (List.mem_singleton_self _))
    obtain ⟨hjobs', hjob⟩ := hjobs.turn (staffed_unfolds hrun) hact.turn hlast
    obtain ⟨hcalls', hcall⟩ := hcalls.act hact hlast
    refine ⟨hjobs', hcalls', fun m hm th o n g text u hdeed => ?_⟩
    rcases List.mem_append.1 hm with hm | hm
    · exact hmoments m hm th o n g text u hdeed
    · obtain rfl := List.mem_singleton.1 hm
      cases o with
      | none => exact absurd hdeed (hcall th n g text u)
      | some job => rw [Option.map_some, hjob th job n g text u hdeed]

/-! ## Jobs and their tasks -/

/-- What a task shows is what became of its job: its record is the one with which the job ended,
and its output is what was done to its capture. -/
structure Shows (i : Interpreter) (run : List Moment) (w : World) (job : Job) (t : Task)
    (stage : Stage) : Prop where
  task : w.task? job.ref = some t
  line : t.line = job.line
  course : Course i job (momentsOf job.ref run) stage
  underway : ∀ r, stage = .underway r ↔ r ∈ w.pool.running ∧ r.job = job
  record : t.record? = stage.record?
  output : t.output = Capture.run i.settings.outputLimit.toNat (captured job.ref run)

/-- The jobs of a run are kept apart.  No more are under way than there may be workers, each on a
worker that acts under the key of the submitter; every submission has a task of its own; jobs are
begun in the order of their submission, each once, and none is lost before the pool stops; every
task shows what became of its own job; and where calls keep to the consoles that they were given,
whatever was printed on the capture of a task was printed by its job. -/
structure Apart (i : Interpreter) (run : List Moment) (w : World) : Prop where
  bounded : w.pool.running.length ≤ max i.settings.workers.toNat 1
  running : ∀ r ∈ w.pool.running, r.job ∈ submitted run ∧
    w.currentKey (.worker r.worker) = r.job.key
  refs : ((submitted run).map Job.ref).Nodup
  served : begun run ++ w.pool.queue <+: submitted run
  kept : w.pool.stopped = false → begun run ++ w.pool.queue = submitted run
  tasks : ∀ job ∈ submitted run, ∃ t stage, Shows i run w job t stage
  own : (∀ m ∈ run, m.deed.KeepsToConsole) →
    ∀ m ∈ run, ∀ th o n g text u, m.deed = .asked th o (.print (.capture n g) text) u →
      o.map Job.ref = some ⟨n, g⟩

/-- **Background jobs neither mix nor lose results.**  However the calls and jobs of an
interpreter are interleaved, its jobs stay apart. -/
theorem jobs_stay_apart (i : Interpreter) (now : Timestamp) (seed : Nat) (run : List Moment)
    (s : Scene) (h : Unfolds i (.initial i now seed) run s) : Apart i run s.world := by
  have hstaffed := staffed_unfolds h
  have hworkers := hstaffed.workers
  refine {
    bounded := hworkers ▸ hstaffed.bounded
    running := fun r hr => ⟨hstaffed.mem_submitted hr, hstaffed.currentKey hr⟩
    refs := hstaffed.refs
    served := hstaffed.served
    kept := hstaffed.kept
    tasks := fun job hjob => ?_
    own := fun hkeeps => (onOwn_unfolds h hkeeps).2.2 }
  obtain ⟨stage, hcourse, hunderway⟩ := hstaffed.stages job hjob
  obtain ⟨t, ht, hline, hrecord, houtput⟩ := tasks_unfolds h job hjob
  exact ⟨t, stage, ht, hline, hcourse, hunderway, hrecord.trans hcourse.record?, houtput⟩

/-- Tasks of one name in two sessions, whose jobs run side by side. -/
theorem two_echoes_stay_apart :
    let i : Interpreter := ⟨.default, .ofEntries Strategy.builtin [Shell.echo], .builtin, []⟩
    let th : Thread := .caller 0
    let w₁ := ((World.initial i.settings 0 1).submit i th "job" "echo one").2
    let w₂ := ((w₁.bind th (some (.named "b"))).submit i th "job" "echo two").2
    ∃ run, Unfolds i (.initial i 0 1) run ⟨w₂.settle i 8, []⟩ ∧ Apart i run (w₂.settle i 8) ∧
      ((w₂.settle i 8).task? ⟨0, 1⟩).map (fun t => t.output.lines) = some ["one"] ∧
      ((w₂.settle i 8).task? ⟨1, 1⟩).map (fun t => t.output.lines) = some ["two"] := by
  intro i th w₁ w₂
  have h₁ := unfolds_submit (i := i) (.initial i 0 1) 0 "job" "echo one"
  have h₂ := h₁.trans (Act.bind _ 0 (some (.named "b"))).unfolds
  have h₃ := h₂.trans (unfolds_submit _ 0 "job" "echo two")
  obtain ⟨run, hrun, -⟩ := exists_unfolds_settle (i := i) ⟨w₂, []⟩ 8
  have h := h₃.trans hrun
  exact ⟨_, h, jobs_stay_apart i 0 1 _ _ h, by decide +kernel, by decide +kernel⟩

end CommandShell
