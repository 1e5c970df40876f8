import CommandShell.Proofs.Engine.Handles
import Mathlib.Data.List.Perm.Subperm
/-!
# The course of a job

Whatever goes on beside it, a job waits in the queue, is begun by one worker, is answered request
by request, and ends with one record.

    submitted run, begun run   the jobs of a run, in the order in which they were submitted and
                               begun
    Booked run w               jobs are begun in the order of their submission, each once
    Course i job moments stage
                               what becomes of a job, by the moments that belong to it
    Staffed i run w            every worker has one job, and every job is at its stage
    every act keeps both, so every run does            (Booked.act, Staffed.act, staffed_unfolds)
-/

namespace CommandShell

open World

/-! ## What a run did -/

/-- The jobs that a run submitted, in order. -/
def submitted (run : List Moment) : List Job := run.filterMap fun m => m.deed.submission m.before

/-- The jobs that a run began, in order. -/
def begun (run : List Moment) : List Job := run.filterMap fun m => m.deed.begun?

/-- Whether a moment belongs to the job of a task. -/
def Moment.isOf (ref : TaskRef) (m : Moment) : Bool := m.deed.job?.any fun job => job.ref = ref

/-- The moments of the job of a task. -/
def momentsOf (ref : TaskRef) (run : List Moment) : List Moment := run.filter fun m => m.isOf ref

section

variable {run : List Moment} {m : Moment} {ref : TaskRef} {job : Job}

theorem submitted_concat (run : List Moment) (m : Moment) :
    submitted (run ++ [m]) = submitted run ++ (m.deed.submission m.before).toList := by
  rw [submitted, List.filterMap_append]
  cases h : m.deed.submission m.before <;> simp [submitted, h]

theorem begun_concat (run : List Moment) (m : Moment) :
    begun (run ++ [m]) = begun run ++ m.deed.begun?.toList := by
  rw [begun, List.filterMap_append]
  cases h : m.deed.begun? <;> simp [begun, h]

theorem mem_submitted_concat :
    job ∈ submitted (run ++ [m]) ↔ job ∈ submitted run ∨ m.deed.submission m.before = some job := by
  rw [submitted_concat, List.mem_append, Option.mem_toList]

theorem momentsOf_concat_of_isOf (h : m.isOf ref = true) (run : List Moment) :
    momentsOf ref (run ++ [m]) = momentsOf ref run ++ [m] := by
  rw [momentsOf, List.filter_append, List.filter_cons_of_pos h]
  rfl

theorem momentsOf_concat_of_not (h : m.isOf ref = false) (run : List Moment) :
    momentsOf ref (run ++ [m]) = momentsOf ref run := by
  rw [momentsOf, List.filter_append, List.filter_cons_of_neg (by simp [h])]
  exact List.append_nil _

theorem mem_begun_of_momentsOf (h : job ∈ begun (momentsOf ref run)) : job ∈ begun run := by
  obtain ⟨m, hm, hjob⟩ := List.mem_filterMap.1 h
  exact List.mem_filterMap.2 ⟨m, List.mem_of_mem_filter hm, hjob⟩

end

/-! ## Submissions -/

/-- Every job that was submitted has a task of its own, and jobs are begun in the order of their
submission; until the pool stops none is lost. -/
structure Booked (run : List Moment) (w : World) : Prop where
  sound : w.Sound
  known : ∀ job ∈ submitted run, (w.task? job.ref).isSome
  lines : ∀ job ∈ submitted run, Text.allBlank job.line.toList = false
  refs : ((submitted run).map Job.ref).Nodup
  served : begun run ++ w.pool.queue <+: submitted run
  kept : w.pool.stopped = false → begun run ++ w.pool.queue = submitted run

variable {i : Interpreter} {run : List Moment} {w w' : World} {deed : Deed} {job : Job}

theorem Booked.ref_ne (h : Booked run w) (hturn : Turn i w deed w') {other : Job}
    (hjob : job ∈ submitted run) (hother : deed.submission w = some other) :
    other.ref ≠ job.ref := by
  intro href
  have hsome := h.known job hjob
  rw [← href, (hturn.submits hother).1] at hsome
  cases hsome

theorem Booked.act (h : Booked run w) (hturn : Turn i w deed w') :
    Booked (run ++ [⟨w, deed, w'⟩]) w' where
  sound := hturn.sound h.sound
  known job hjob := by
    rcases mem_submitted_concat.1 hjob with hjob | hjob
    · rw [hturn.task? fun other hother => h.ref_ne hturn hjob hother, Option.isSome_map]
      exact h.known job hjob
    · obtain ⟨t, ht, -⟩ := (hturn.submits hjob).2.2.2 h.sound
      rw [ht]
      rfl
  lines job hjob := by
    rcases mem_submitted_concat.1 hjob with hjob | hjob
    · exact h.lines job hjob
    · exact (hturn.submits hjob).2.1
  refs := by
    rw [submitted_concat, List.map_append, List.nodup_append]
    refine ⟨h.refs, ?_, ?_⟩
    · cases deed.submission w <;> simp
    · rintro ref href other hother rfl
      obtain ⟨job, hjob, rfl⟩ := List.mem_map.1 href
      obtain ⟨new, hnew, hsame⟩ := List.mem_map.1 hother
      exact h.ref_ne hturn hjob (Option.mem_toList.1 hnew) hsame
  served := by
    rw [begun_concat, submitted_concat, List.append_assoc]
    rcases hturn.queue with ⟨hqueue, -⟩ | ⟨hbegun, hsubmission, hqueue, -⟩
    · rw [hqueue, ← List.append_assoc]
      cases hnew : deed.submission w with
      | none => simpa using h.served
      | some job =>
        exact ⟨[], by rw [List.append_nil, h.kept (hturn.submits hnew).2.2.1]⟩
    · rw [hbegun, hsubmission, hqueue]
      simpa using (List.prefix_append _ _).trans h.served
  kept hstopped := by
    rw [begun_concat, submitted_concat, List.append_assoc]
    rcases hturn.queue with ⟨hqueue, hsame⟩ | ⟨-, -, -, hstop⟩
    · rw [hqueue, ← List.append_assoc, h.kept (hsame.symm.trans hstopped)]
    · rw [hstop] at hstopped
      cases hstopped

theorem booked_initial (i : Interpreter) (now : Timestamp) (seed : Nat) :
    Booked [] (.initial i.settings now seed) where
  sound := sound_initial i.settings now seed
  known _ hjob := absurd hjob List.not_mem_nil
  lines _ hjob := absurd hjob List.not_mem_nil
  refs := List.nodup_nil
  served := List.prefix_rfl
  kept _ := rfl

theorem Booked.eq_of_ref (h : Booked run w) {other : Job} (hjob : job ∈ submitted run)
    (hother : other ∈ submitted run) (href : job.ref = other.ref) : job = other :=
  List.inj_on_of_nodup_map h.refs hjob hother href

/-- The first job of the queue has not been begun. -/
theorem Booked.head (h : Booked run w) {queue : List Job} (hqueue : w.pool.queue = job :: queue) :
    job ∈ submitted run ∧ job ∉ begun run := by
  have hserved := h.served
  rw [hqueue] at hserved
  have hnodup := (List.Nodup.of_map _ h.refs).sublist hserved.sublist
  refine ⟨hserved.subset (List.mem_append_right _ List.mem_cons_self), fun hjob => ?_⟩
  exact (List.nodup_append.1 hnodup).2.2 job hjob job List.mem_cons_self rfl

theorem Booked.mem_of_begun (h : Booked run w) (hjob : job ∈ begun run) : job ∈ submitted run :=
  h.served.subset (List.mem_append_left _ hjob)

/-! ## The course of a job -/

/-- How far a job has come. -/
inductive Stage where
  | queued
  | underway (r : Running)
  | finished (record : Record)

/-- The record of a job that is over. -/
def Stage.record? : Stage → Option Record
  | finished record => some record
  | _ => none

/-- What becomes of a job.  A worker binds itself to the key of the submitter and begins the call
of the job's line, with the capture of its task as the console.  Whatever the call then asks for
is answered to the worker, still bound to that key, and no history changes.  At the end of its
script the call adds its record to the history of the submitter's session and to no other, and
the worker is bound to what it was bound to before.  Then nothing more becomes of the job. -/
inductive Course (i : Interpreter) (job : Job) : List Moment → Stage → Prop
  | queued : Course i job [] .queued
  | began {m : Moment} {r : Running} {inv : Invocation} {w₁ : World} (hdeed : m.deed = .began r)
      (hjob : r.job = job)
      (hprevious : r.previous = Assoc.get? (.worker r.worker) m.before.bound)
      (hbegin : (m.before.bind (.worker r.worker) (some job.key)).beginLine i job.session job.line
        (.capture job.session job.generation) = some (inv, w₁))
      (hinv : r.invocation = some inv) (hkey : m.after.currentKey (.worker r.worker) = job.key)
      (hhistory : ∀ n, (m.after.session n).history = (m.before.session n).history) :
      Course i job [m] (.underway r)
  | asked {moments : List Moment} {m : Moment} {r : Running} {inv : Invocation}
      {request : Request} {next : request.Reply → Script (Except Failure Json)}
      {reply : request.Reply} {w₁ : World} (h : Course i job moments (.underway r))
      (hinv : r.invocation = some inv) (hscript : inv.script = .request request next)
      (hdeed : m.deed = .asked (.worker r.worker) (some job) request reply)
      (hanswer : m.before.answer i (.worker r.worker) request = some (reply, w₁))
      (hkey : m.before.currentKey (.worker r.worker) = job.key)
      (hkeep : m.after.currentKey (.worker r.worker) = job.key)
      (hhistory : ∀ n, (m.after.session n).history = (m.before.session n).history) :
      Course i job (moments ++ [m])
        (.underway { r with invocation := some { inv with script := next reply } })
  | ended {moments : List Moment} {m : Moment} {r : Running} {inv : Invocation}
      {outcome : Except Failure Json} {record : Record} (h : Course i job moments (.underway r))
      (hinv : r.invocation = some inv) (hscript : inv.script = .done outcome)
      (hrecord : record = inv.record m.before.now outcome) (hdeed : m.deed = .ended r record)
      (hkey : m.before.currentKey (.worker r.worker) = job.key)
      (hpush : (m.after.session job.session).history =
        ((m.before.session job.session).push record).history)
      (hothers : ∀ n, n ≠ job.session →
        (m.after.session n).history = (m.before.session n).history)
      (hrestored : Assoc.get? (.worker r.worker) m.after.bound = r.previous) :
      Course i job (moments ++ [m]) (.finished record)

variable {moments : List Moment} {stage : Stage} {r : Running}

theorem Course.eq_nil (h : Course i job moments .queued) : moments = [] := by
  cases h
  rfl

theorem Course.mem_begun (h : Course i job moments stage) (hstage : stage ≠ .queued) :
    job ∈ begun moments := by
  induction h with
  | queued => exact absurd rfl hstage
  | began hdeed hjob =>
    subst hjob
    exact List.mem_filterMap.2 ⟨_, List.mem_singleton_self _, by rw [hdeed]; rfl⟩
  | asked h _ _ _ _ _ _ _ ih =>
    rw [begun_concat]
    exact List.mem_append_left _ (ih (by simp))
  | ended h _ _ _ _ _ _ _ _ ih =>
    rw [begun_concat]
    exact List.mem_append_left _ (ih (by simp))

/-- A job that is under way has a call, which is made in its session. -/
theorem Course.invocation (h : Course i job moments (.underway r)) :
    r.job = job ∧ ∃ inv, r.invocation = some inv ∧ inv.session = job.session := by
  generalize hstage : Stage.underway r = stage at h
  induction h generalizing r with
  | queued => cases hstage
  | began hdeed hjob hprevious hbegin hinv =>
    cases hstage
    exact ⟨hjob, _, hinv, (exists_log_of_beginLine hbegin).1⟩
  | asked h hinv hscript _ _ _ _ _ ih =>
    cases hstage
    obtain ⟨hjob, inv, hinv', hsession⟩ := ih rfl
    rw [hinv] at hinv'
    cases hinv'
    exact ⟨hjob, _, rfl, hsession⟩
  | ended => cases hstage

/-! ## Workers -/

theorem freeWorker_ne {running : List Running} (hr : r ∈ running) :
    r.worker ≠ freeWorker running := by
  unfold freeWorker
  cases hfind : (List.range (running.length + 1)).find? fun n =>
      running.all fun r => r.worker ≠ n with
  | some n =>
    have hfree := List.find?_some hfind
    rw [List.all_eq_true] at hfree
    exact of_decide_eq_true (hfree r hr)
  | none =>
    -- There are more numbers to choose from than workers that are taken.
    have htaken : List.range (running.length + 1) ⊆ running.map Running.worker := by
      intro n hn
      have hnot := List.find?_eq_none.1 hfind n hn
      rw [Bool.not_eq_true, List.all_eq_false] at hnot
      obtain ⟨q, hq, hsame⟩ := hnot
      exact List.mem_map.2 ⟨q, hq, by simpa using hsame⟩
    have hlength := (List.Nodup.subperm List.nodup_range htaken).length_le
    rw [List.length_range, List.length_map] at hlength
    omega

/-- A job is at a stage of its course, and if it is under way a worker is at work on it. -/
def AtStage (i : Interpreter) (run : List Moment) (w : World) (job : Job) : Prop :=
  ∃ stage, Course i job (momentsOf job.ref run) stage ∧
    ∀ r, stage = .underway r ↔ r ∈ w.pool.running ∧ r.job = job

/-- Every worker is at work on one job and bound to the key of its submitter, every job is at a
stage of its course, and no deed is without a job that was submitted before it. -/
structure Staffed (i : Interpreter) (run : List Moment) (w : World) : Prop
    extends Booked run w where
  workers : w.pool.workers = max i.settings.workers.toNat 1
  bounded : w.pool.running.length ≤ w.pool.workers
  distinct : (w.pool.running.map Running.worker).Nodup
  busy : ∀ r ∈ w.pool.running, r.job ∈ begun run ∧
    Assoc.get? (.worker r.worker) w.bound = some r.job.key
  owners : ∀ m ∈ run, ∀ job, m.deed.job? = some job → job ∈ submitted run
  stages : ∀ job ∈ submitted run, AtStage i run w job

namespace Staffed

theorem eq_of_worker (h : Staffed i run w) {q : Running} (hq : q ∈ w.pool.running)
    (hr : r ∈ w.pool.running) (hworker : q.worker = r.worker) : q = r :=
  List.inj_on_of_nodup_map h.distinct hq hr hworker

theorem mem_submitted (h : Staffed i run w) (hr : r ∈ w.pool.running) : r.job ∈ submitted run :=
  h.mem_of_begun (h.busy r hr).1

theorem eq_of_job (h : Staffed i run w) {q : Running} (hq : q ∈ w.pool.running)
    (hr : r ∈ w.pool.running) (hjob : q.job = r.job) : q = r := by
  obtain ⟨stage, -, hstage⟩ := h.stages r.job (h.mem_submitted hr)
  have hsame := ((hstage q).2 ⟨hq, hjob⟩).symm.trans ((hstage r).2 ⟨hr, rfl⟩)
  cases hsame
  rfl

theorem underway (h : Staffed i run w) (hr : r ∈ w.pool.running) :
    Course i r.job (momentsOf r.job.ref run) (.underway r) := by
  obtain ⟨stage, hcourse, hstage⟩ := h.stages r.job (h.mem_submitted hr)
  rw [(hstage r).2 ⟨hr, rfl⟩] at hcourse
  exact hcourse

theorem session_eq {inv : Invocation} (h : Staffed i run w) (hr : r ∈ w.pool.running)
    (hinv : r.invocation = some inv) : inv.session = r.job.session := by
  obtain ⟨-, inv', hinv', hsession⟩ := (h.underway hr).invocation
  rw [hinv] at hinv'
  cases hinv'
  exact hsession

/-- A job that is under way has its call in a session that is there. -/
theorem session_lt {inv : Invocation} (h : Staffed i run w) (hr : r ∈ w.pool.running)
    (hinv : r.invocation = some inv) : inv.session < w.sessions.sessions.length := by
  rw [h.session_eq hr hinv]
  refine Nat.lt_of_not_le fun hle => ?_
  have hknown := h.known r.job (h.mem_submitted hr)
  rw [task?_of_length_le hle] at hknown
  cases hknown

theorem currentKey (h : Staffed i run w) (hr : r ∈ w.pool.running) :
    w.currentKey (.worker r.worker) = r.job.key := by
  rw [World.currentKey, (h.busy r hr).2]
  rfl

/-- A job that was not begun is in the queue, or was dropped from it. -/
theorem queued (h : Staffed i run w) (hjob : job ∈ submitted run) (hbegun : job ∉ begun run) :
    momentsOf job.ref run = [] ∧ ∀ r ∈ w.pool.running, r.job ≠ job := by
  obtain ⟨stage, hcourse, -⟩ := h.stages job hjob
  refine ⟨?_, fun r hr hsame => hbegun (hsame ▸ (h.busy r hr).1)⟩
  cases stage with
  | queued => exact hcourse.eq_nil
  | underway r => exact absurd (mem_begun_of_momentsOf (hcourse.mem_begun (by simp))) hbegun
  | finished record => exact absurd (mem_begun_of_momentsOf (hcourse.mem_begun (by simp))) hbegun

theorem owner (h : Staffed i run w) (hturn : Turn i w deed w') (hjob : deed.job? = some job) :
    job ∈ submitted run := by
  cases hturn with
  | still hdeed => rcases hdeed with rfl | ⟨inv, rfl⟩ <;> cases hjob
  | asked => cases hjob
  | began hqueue =>
    cases hjob
    exact (h.head hqueue).1
  | proceeded hr =>
    cases hjob
    exact h.mem_submitted hr
  | finished hr =>
    cases hjob
    exact h.mem_submitted hr
  | released hr =>
    cases hjob
    exact h.mem_submitted hr

theorem isOf_iff (h : Staffed i run w) (hturn : Turn i w deed w') (hjob : job ∈ submitted run) :
    (⟨w, deed, w'⟩ : Moment).isOf job.ref = true ↔ deed.job? = some job := by
  unfold Moment.isOf
  cases hdeed : deed.job? with
  | none => simp
  | some other =>
    simp only [Option.any_some, decide_eq_true_eq, Option.some.injEq]
    exact ⟨h.eq_of_ref (h.owner hturn hdeed) hjob, fun hsame => by rw [hsame]⟩

/-- A job to which a turn does not belong stays at its stage. -/
theorem keep (h : Staffed i run w) (hturn : Turn i w deed w') (hjob : job ∈ submitted run)
    (hdeed : deed.job? ≠ some job)
    (hrunning : ∀ r, r.job = job → (r ∈ w'.pool.running ↔ r ∈ w.pool.running)) :
    AtStage i (run ++ [⟨w, deed, w'⟩]) w' job := by
  obtain ⟨stage, hcourse, hstage⟩ := h.stages job hjob
  have hnot : (⟨w, deed, w'⟩ : Moment).isOf job.ref = false :=
    Bool.eq_false_iff.2 (mt (h.isOf_iff hturn hjob).1 hdeed)
  refine ⟨stage, ?_, fun r => (hstage r).trans ?_⟩
  · rw [momentsOf_concat_of_not hnot]
    exact hcourse
  · exact and_congr_left fun hr => (hrunning r hr).symm

/-- A new job has no moments: those so far belong to jobs that were submitted before. -/
theorem momentsOf_new (h : Staffed i run w) (hturn : Turn i w deed w')
    (hjob : deed.submission w = some job) :
    momentsOf job.ref (run ++ [⟨w, deed, w'⟩]) = [] := by
  refine List.filter_eq_nil_iff.2 fun m hm => ?_
  unfold Moment.isOf
  cases hother : m.deed.job? with
  | none => simp
  | some other =>
    have hmem : other ∈ submitted run := by
      rcases List.mem_append.1 hm with hm | hm
      · exact h.owners m hm other hother
      · obtain rfl := List.mem_singleton.1 hm
        exact h.owner hturn hother
    simpa using (h.ref_ne hturn hmem hjob).symm

/-- What is left to show of a turn: what it does to workers and to jobs that were submitted
before. -/
theorem next (h : Staffed i run w) (hturn : Turn i w deed w')
    (hworkers : w'.pool.workers = w.pool.workers)
    (hbounded : w'.pool.running.length ≤ w'.pool.workers)
    (hdistinct : (w'.pool.running.map Running.worker).Nodup)
    (hbusy : ∀ r ∈ w'.pool.running, r.job ∈ begun (run ++ [⟨w, deed, w'⟩]) ∧
      Assoc.get? (.worker r.worker) w'.bound = some r.job.key)
    (hstages : ∀ job ∈ submitted run, AtStage i (run ++ [⟨w, deed, w'⟩]) w' job) :
    Staffed i (run ++ [⟨w, deed, w'⟩]) w' where
  toBooked := h.toBooked.act hturn
  workers := hworkers.trans h.workers
  bounded := hbounded
  distinct := hdistinct
  busy := hbusy
  owners m hm job hjob := by
    rw [mem_submitted_concat]
    rcases List.mem_append.1 hm with hm | hm
    · exact Or.inl (h.owners m hm job hjob)
    · obtain rfl := List.mem_singleton.1 hm
      exact Or.inl (h.owner hturn hjob)
  stages job hjob := by
    rcases mem_submitted_concat.1 hjob with hjob | hjob
    · exact hstages job hjob
    · have hnone := h.momentsOf_new hturn hjob
      refine ⟨.queued, by rw [hnone]; exact .queued, fun r => ?_⟩
      refine iff_of_false (by simp) fun hr => ?_
      have hnobody : deed.begun? = none := by
        cases deed with
        | asked => rfl
        | _ => cases hjob
      have hbegun := (hbusy r hr.1).1
      rw [begun_concat, hnobody, hr.2] at hbegun
      have hmem := h.mem_of_begun (by simpa using hbegun)
      exact h.ref_ne hturn hmem hjob rfl

/-- A turn that leaves the workers alone. -/
theorem same (h : Staffed i run w) (hturn : Turn i w deed w') (hdeed : deed.job? = none)
    (hbegun : deed.begun? = none) (hrunning : w'.pool.running = w.pool.running)
    (hworkers : w'.pool.workers = w.pool.workers)
    (hbound : ∀ k, Assoc.get? (.worker k) w'.bound = Assoc.get? (.worker k) w.bound) :
    Staffed i (run ++ [⟨w, deed, w'⟩]) w' := by
  refine h.next hturn hworkers ?_ ?_ (fun r hr => ?_) fun job hjob => ?_
  · rw [hrunning, hworkers]
    exact h.bounded
  · rw [hrunning]
    exact h.distinct
  · rw [hrunning] at hr
    rw [begun_concat, hbegun, hbound]
    simpa using h.busy r hr
  · refine h.keep hturn hjob (by simp [hdeed]) fun r _ => ?_
    rw [hrunning]

theorem began {queue : List Job} (h : Staffed i run w) (hturn : Turn i w (.began r) w')
    (hqueue : w.pool.queue = r.job :: queue) (hfree : w.pool.running.length < w.pool.workers)
    (hworker : r.worker = freeWorker w.pool.running)
    (hprevious : r.previous = Assoc.get? (.worker r.worker) w.bound)
    (hinvocation : r.invocation = ((w.bind (.worker r.worker) (some r.job.key)).beginLine i
      r.job.session r.job.line (.capture r.job.session r.job.generation)).map Prod.fst)
    (hbound : w'.bound = Assoc.put (.worker r.worker) r.job.key w.bound)
    (hsessions : w'.sessions = w.sessions)
    (hpool : w'.pool = { w.pool with queue := queue, running := w.pool.running ++ [r] }) :
    Staffed i (run ++ [⟨w, .began r, w'⟩]) w' := by
  obtain ⟨hjob, hnew⟩ := h.head hqueue
  have hmem (q : Running) : q ∈ w'.pool.running ↔ q ∈ w.pool.running ∨ q = r := by
    rw [hpool, List.mem_append, List.mem_singleton]
  have hother (q : Running) (hq : q ∈ w.pool.running) : q.worker ≠ r.worker := by
    rw [hworker]
    exact freeWorker_ne hq
  have hself : Assoc.get? (.worker r.worker) w'.bound = some r.job.key := by
    rw [hbound]
    exact Assoc.get?_put_self _ _ _
  refine h.next hturn (by rw [hpool]) ?_ ?_ (fun q hq => ?_) fun job hmemjob => ?_
  · rw [hpool, List.length_append]
    exact hfree
  · rw [hpool, List.map_append, List.nodup_append]
    refine ⟨h.distinct, by simp, ?_⟩
    rintro k hk k' hk' rfl
    obtain ⟨q, hq, rfl⟩ := List.mem_map.1 hk
    exact hother q hq (by simpa using hk')
  · rw [begun_concat]
    rcases (hmem q).1 hq with hq | rfl
    · rw [hbound, Assoc.get?_put_of_ne (by simpa using hother q hq)]
      exact (h.busy q hq).imp_left (List.mem_append_left _)
    · exact ⟨List.mem_append_right _ (List.mem_singleton_self _), hself⟩
  · by_cases hsame : job = r.job
    · subst hsame
      obtain ⟨hnone, hidle⟩ := h.queued hjob hnew
      have hof := (h.isOf_iff hturn hjob).2 rfl
      -- The line of a job is not blank, so it makes a call.
      obtain ⟨inv, w₁, hbegin⟩ : ∃ inv w₁, (w.bind (.worker r.worker) (some r.job.key)).beginLine i
          r.job.session r.job.line (.capture r.job.session r.job.generation) = some (inv, w₁) := by
        cases hsplit : splitCommand r.job.line with
        | none =>
          have hblank := (splitCommand_eq_none_iff r.job.line).1 hsplit
          rw [h.lines _ hjob] at hblank
          cases hblank
        | some cut => exact ⟨_, _, beginLine_of_split _ hsplit⟩
      refine ⟨.underway r, ?_, fun q => ?_⟩
      · rw [momentsOf_concat_of_isOf hof, hnone]
        refine .began rfl rfl hprevious hbegin (by rw [hinvocation, hbegin]; rfl) ?_ fun n => ?_
        · rw [World.currentKey, hself]
          rfl
        · rw [session, session, hsessions]
      · rw [Stage.underway.injEq, hmem]
        constructor
        · rintro rfl
          exact ⟨Or.inr rfl, rfl⟩
        · rintro ⟨hq | rfl, hq'⟩
          · exact absurd hq' (hidle q hq)
          · rfl
    · refine h.keep hturn hmemjob (fun heq => hsame (Option.some.inj heq).symm) fun q hq => ?_
      rw [hmem]
      refine or_iff_left ?_
      rintro rfl
      exact hsame hq.symm

theorem proceeded {inv : Invocation} {request : Request}
    {next : request.Reply → Script (Except Failure Json)} {reply : request.Reply} {w₁ : World}
    (h : Staffed i run w) (hr : r ∈ w.pool.running) (hinv : r.invocation = some inv)
    (hscript : inv.script = .request request next)
    (hanswer : w.answer i (.worker r.worker) request = some (reply, w₁)) :
    Staffed i (run ++ [⟨w, .asked (.worker r.worker) (some r.job) request reply,
      w₁.updateJob r { inv with script := next reply }⟩])
      (w₁.updateJob r { inv with script := next reply }) := by
  have hturn : Turn i w _ _ := .proceeded hr hinv hscript hanswer
  obtain ⟨hbound, hpool⟩ := answer_pool hanswer
  have hrunning : w₁.pool.running = w.pool.running := by rw [hpool]
  have hworkers : w₁.pool.workers = w.pool.workers := by rw [hpool]
  -- The job that goes on keeps its worker, and the others are as they were.
  have hmem (q : Running) : q ∈ (w₁.updateJob r { inv with script := next reply }).pool.running ↔
      q = { r with invocation := some { inv with script := next reply } } ∨
        q ∈ w.pool.running ∧ q.worker ≠ r.worker := by
    have hmap : (w₁.updateJob r { inv with script := next reply }).pool.running =
        w.pool.running.map fun q => if q.worker = r.worker then
          { q with invocation := some { inv with script := next reply } } else q := by
      rw [← hrunning]
      rfl
    rw [hmap, List.mem_map]
    constructor
    · rintro ⟨p, hp, rfl⟩
      split
      · next hsame =>
        obtain rfl := h.eq_of_worker hp hr hsame
        exact Or.inl rfl
      · next hother => exact Or.inr ⟨hp, hother⟩
    · rintro (rfl | ⟨hq, hother⟩)
      · exact ⟨r, hr, if_pos rfl⟩
      · exact ⟨q, hq, if_neg hother⟩
  have hnumbers : (w₁.updateJob r { inv with script := next reply }).pool.running.map
      Running.worker = w.pool.running.map Running.worker := by
    rw [updateJob, hrunning, List.map_map]
    refine List.map_congr_left fun q _ => ?_
    dsimp only [Function.comp]
    split <;> rfl
  have hkey : w.currentKey (.worker r.worker) = r.job.key := h.currentKey hr
  refine h.next hturn hworkers ?_ ?_ (fun q hq => ?_) fun job hmemjob => ?_
  · have hlength := congrArg List.length hnumbers
    rw [List.length_map, List.length_map] at hlength
    rw [hlength]
    exact Nat.le_trans h.bounded (Nat.le_of_eq hworkers.symm)
  · rw [hnumbers]
    exact h.distinct
  · have hsame : (w₁.updateJob r { inv with script := next reply }).bound = w.bound := hbound
    rw [begun_concat, hsame]
    rcases (hmem q).1 hq with rfl | ⟨hq, -⟩
    · exact (h.busy r hr).imp_left (List.mem_append_left _)
    · exact (h.busy q hq).imp_left (List.mem_append_left _)
  · by_cases hsame : job = r.job
    · subst hsame
      refine ⟨.underway { r with invocation := some { inv with script := next reply } }, ?_,
        fun q => ?_⟩
      · rw [momentsOf_concat_of_isOf ((h.isOf_iff hturn hmemjob).2 rfl)]
        refine .asked (h.underway hr) hinv hscript rfl hanswer hkey ?_
          (quiet_answer hanswer).history
        have hafter : (w₁.updateJob r { inv with script := next reply }).bound = w.bound := hbound
        rw [World.currentKey, hafter]
        exact hkey
      · rw [Stage.underway.injEq, hmem]
        constructor
        · rintro rfl
          exact ⟨Or.inl rfl, rfl⟩
        · rintro ⟨rfl | ⟨hq, hother⟩, hq'⟩
          · rfl
          · exact absurd (congrArg Running.worker (h.eq_of_job hq hr hq')) hother
    · refine h.keep hturn hmemjob (fun heq => hsame (Option.some.inj heq).symm) fun q hq => ?_
      rw [hmem]
      constructor
      · rintro (rfl | ⟨hq', -⟩)
        · exact absurd hq.symm hsame
        · exact hq'
      · intro hq'
        refine Or.inr ⟨hq', fun hworker => hsame ?_⟩
        rw [← hq, h.eq_of_worker hq' hr hworker]

theorem ended {inv : Invocation} {outcome : Except Failure Json} (h : Staffed i run w)
    (hr : r ∈ w.pool.running) (hinv : r.invocation = some inv)
    (hscript : inv.script = .done outcome) :
    Staffed i (run ++ [⟨w, .ended r (inv.record w.now outcome), w.finishJob r inv outcome⟩])
      (w.finishJob r inv outcome) := by
  have hturn : Turn i w _ _ := .finished hr hinv hscript
  obtain ⟨w₁, hquiet, hrestored, hothers, heq⟩ :=
    exists_quiet_releaseJob (w.finishCall inv outcome).2 r (inv.record w.now outcome)
  have hfinish : w.finishJob r inv outcome = { w₁ with pool :=
      { w.pool with running := w.pool.running.filter fun q => q.worker ≠ r.worker } } := heq
  rw [hfinish] at hturn ⊢
  have hmem (q : Running) : q ∈ w.pool.running.filter (fun q => q.worker ≠ r.worker) ↔
      q ∈ w.pool.running ∧ q.worker ≠ r.worker := by
    rw [List.mem_filter, decide_eq_true_eq]
  refine h.next hturn rfl ?_ ?_ (fun q hq => ?_) fun job hmemjob => ?_
  · exact Nat.le_trans (List.length_filter_le _ _) h.bounded
  · exact h.distinct.sublist (List.filter_sublist.map _)
  · obtain ⟨hq, hother⟩ := (hmem q).1 hq
    rw [begun_concat]
    refine (h.busy q hq).imp (List.mem_append_left _) fun hbusy => ?_
    exact (hothers q.worker hother).trans hbusy
  · by_cases hsame : job = r.job
    · subst hsame
      have hcourse := h.underway hr
      have hsession := h.session_eq hr hinv
      have hlt := h.session_lt hr hinv
      have hpush : ((w.finishCall inv outcome).2.session r.job.session).history =
          ((w.session r.job.session).push (inv.record w.now outcome)).history := by
        rw [← hsession]
        exact congrArg Session.history (session_modifySession_self hlt _)
      refine ⟨.finished (inv.record w.now outcome), ?_, fun q => ?_⟩
      · rw [momentsOf_concat_of_isOf ((h.isOf_iff hturn hmemjob).2 rfl)]
        refine .ended hcourse hinv hscript rfl rfl (h.currentKey hr) ?_ (fun n hn => ?_) hrestored
        · exact (hquiet.history r.job.session).trans hpush
        · refine (hquiet.history n).trans ?_
          rw [finishCall, session_modifySession_of_ne (by rw [hsession]; exact hn)]
      · refine iff_of_false (by simp) fun hq => ?_
        obtain ⟨hmemq, hother⟩ := (hmem q).1 hq.1
        exact hother (congrArg Running.worker (h.eq_of_job hmemq hr hq.2))
    · refine h.keep hturn hmemjob (fun heq => hsame (Option.some.inj heq).symm) fun q hq => ?_
      refine (hmem q).trans (and_iff_left_of_imp fun hq' hworker => hsame ?_)
      rw [← hq, h.eq_of_worker hq' hr hworker]

theorem act (h : Staffed i run w) (hturn : Turn i w deed w') :
    Staffed i (run ++ [⟨w, deed, w'⟩]) w' := by
  cases hturn with
  | still hdeed hstill =>
    have hturn : Turn i w deed w' := .still hdeed hstill
    rcases hdeed with rfl | ⟨inv, rfl⟩ <;>
      exact h.same hturn rfl rfl hstill.running hstill.workers hstill.bound
  | asked hanswer =>
    obtain ⟨hbound, hpool⟩ := answer_pool hanswer
    exact h.same (.asked hanswer) rfl rfl (by rw [hpool]) (by rw [hpool])
      fun k => by rw [hbound]
  | began hqueue hfree hworker hprevious hinvocation =>
    exact h.began (.began hqueue hfree hworker hprevious hinvocation) hqueue hfree hworker
      hprevious hinvocation rfl rfl rfl
  | proceeded hr hinv hscript hanswer => exact h.proceeded hr hinv hscript hanswer
  | finished hr hinv hscript => exact h.ended hr hinv hscript
  | released hr hinv =>
    -- A job that is under way has a call.
    obtain ⟨-, inv, hsome, -⟩ := (h.underway hr).invocation
    rw [hinv] at hsome
    cases hsome

end Staffed

theorem staffed_initial (i : Interpreter) (now : Timestamp) (seed : Nat) :
    Staffed i [] (.initial i.settings now seed) where
  toBooked := booked_initial i now seed
  workers := rfl
  bounded := Nat.zero_le _
  distinct := List.nodup_nil
  busy _ hr := absurd hr List.not_mem_nil
  owners _ hm := absurd hm List.not_mem_nil
  stages _ hjob := absurd hjob List.not_mem_nil

/-- However calls and jobs are interleaved, every job is at a stage of its course. -/
theorem staffed_unfolds {now : Timestamp} {seed : Nat} {s : Scene}
    (h : Unfolds i (.initial i now seed) run s) : Staffed i run s.world := by
  induction h with
  | none => exact staffed_initial i now seed
  | act _ hact ih => exact ih.act hact.turn

end CommandShell
