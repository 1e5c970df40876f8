import CommandShell.Proofs.Engine.Isolation
import CommandShell.Proofs.Engine.Shutdown
/-!
# Jobs that the shutdown drops

When the pool is closed, the jobs that wait in its queue are dropped.  Only the end of a job
completes its task, so nothing ends theirs: whoever looks at them sees them running for ever.  Every
other job comes to its record.

    Instant.moment           what an instant of a life is to the jobs            (Move.turn)
    calls of the shutdown do not disturb the course of the jobs            (staffed_lasts)
    while no job runs, the tasks that are done are those of jobs begun    (done_iff_begun)
    a closed pool takes no job and begins none                           (lasts_of_closed)
    so a task is done ↔ its job did not wait when the pool was closed
                                                                    (done_iff_not_waiting)
-/

namespace CommandShell

open World

/-- What happens in an instant to the jobs: the moves of the shutdown are no deeds of theirs. -/
def Instant.moment (x : Instant) : Moment where
  before := x.before.scene.world
  deed :=
    match x.what with
    | .act deed => deed
    | _ => .other
  after := x.after.scene.world

/-- The moments of a life. -/
def momentsIn (run : List Instant) : List Moment := run.map Instant.moment

variable {i : Interpreter} {l l' : Life} {run : List Instant} {what : Occurrence}
  {job : Job} {now : Timestamp} {seed : Nat}

theorem momentsIn_concat (run : List Instant) (x : Instant) :
    momentsIn (run ++ [x]) = momentsIn run ++ [x.moment] := List.map_append

theorem still_closePool (w : World) : Still w w.closePool where
  sessions := Nat.le_refl _
  sound h := ⟨h.known, fun _ hjob => absurd hjob List.not_mem_nil⟩
  task? _ := rfl
  bound _ := rfl
  running := rfl
  workers := rfl
  queue := Or.inr ⟨rfl, rfl⟩

theorem still_beginShutdown (i : Interpreter) (w : World) : Still w (w.beginShutdown i).2 := by
  unfold beginShutdown
  split <;> exact still_of_same rfl rfl rfl

theorem Move.turn (h : Move i l what l') :
    Turn i l.scene.world (Instant.moment ⟨l, what, l'⟩).deed l'.scene.world := by
  cases h with
  | act hact => exact hact.turn
  | call => exact .still (Or.inl rfl) (still_beginShutdown i l.scene.world)
  | handle => exact .still (Or.inl rfl) (still_of_same rfl rfl rfl)
  | close => exact .still (Or.inl rfl) (still_closePool l.scene.world)
  | leave => exact .still (Or.inl rfl) (still_of_same rfl rfl rfl)

/-- Whatever calls of the shutdown go on beside them, jobs go their course, and their tasks show
it. -/
theorem staffed_lasts (h : Lasts i (.initial i now seed) run l) :
    Staffed i (momentsIn run) l.scene.world ∧ Tasks i (momentsIn run) l.scene.world := by
  induction h with
  | none => exact ⟨staffed_initial i now seed, fun _ hjob => absurd hjob List.not_mem_nil⟩
  | move _ hmove ih =>
    rw [momentsIn_concat]
    exact ⟨ih.1.act hmove.turn, ih.2.act ih.1 hmove.turn⟩

theorem job?_of_begun? {deed : Deed} (h : deed.begun? = some job) : deed.job? = some job := by
  cases deed with
  | began r => exact h
  | _ => cases h

/-- While no job is running, the tasks that are done are those whose jobs were begun. -/
theorem done_iff_begun (h : Lasts i (.initial i now seed) run l)
    (hidle : l.scene.world.pool.running = []) (hjob : job ∈ submitted (momentsIn run)) :
    ∃ t, l.scene.world.task? job.ref = some t ∧
      (t.record?.isSome ↔ job ∈ begun (momentsIn run)) := by
  obtain ⟨hstaffed, htasks⟩ := staffed_lasts h
  obtain ⟨t, ht, -, hrecord, -⟩ := htasks job hjob
  obtain ⟨stage, hcourse, hunderway⟩ := hstaffed.stages job hjob
  refine ⟨t, ht, ?_⟩
  rw [hrecord, hcourse.record?]
  cases stage with
  | queued =>
    refine iff_of_false (by simp [Stage.record?]) fun hbegun => ?_
    obtain ⟨m, hm, hdeed⟩ := List.mem_filterMap.1 hbegun
    have hmoments : m ∈ momentsOf job.ref (momentsIn run) :=
      List.mem_filter.2 ⟨hm, by simp [Moment.isOf, job?_of_begun? hdeed]⟩
    rw [hcourse.eq_nil] at hmoments
    cases hmoments
  | underway r =>
    have hrunning := ((hunderway r).1 rfl).1
    rw [hidle] at hrunning
    cases hrunning
  | finished record =>
    exact iff_of_true rfl (mem_begun_of_momentsOf (hcourse.mem_begun (by simp)))

/-- A closed pool takes no job and begins none. -/
theorem lasts_of_closed (h : Lasts i l run l') (hstopped : l.scene.world.pool.stopped = true)
    (hqueue : l.scene.world.pool.queue = []) :
    l'.scene.world.pool.stopped = true ∧ l'.scene.world.pool.queue = [] ∧
      submitted (momentsIn run) = [] ∧ begun (momentsIn run) = [] := by
  induction h with
  | none => exact ⟨hstopped, hqueue, rfl, rfl⟩
  | @move run l' l'' what h hmove ih =>
    obtain ⟨hstopped, hqueue, hsubmitted, hbegun⟩ := ih
    have hturn := hmove.turn
    have hnone : (Instant.moment ⟨l', what, l''⟩).deed.submission l'.scene.world = none := by
      refine Option.eq_none_iff_forall_ne_some.2 fun job hjob => ?_
      rw [(hturn.submits hjob).2.2.1] at hstopped
      cases hstopped
    have hpool : (Instant.moment ⟨l', what, l''⟩).deed.begun? = none ∧
        l''.scene.world.pool.queue = [] ∧ l''.scene.world.pool.stopped = true := by
      rcases hturn.queue with ⟨hserved, hsame⟩ | ⟨hbegun, -, hempty, hstop⟩
      · rw [hqueue, hnone] at hserved
        obtain ⟨hbegun, hempty⟩ := List.append_eq_nil_iff.1 hserved
        exact ⟨Option.toList_eq_nil_iff.1 hbegun, hempty, hsame.trans hstopped⟩
      · exact ⟨hbegun, hempty, hstop⟩
    obtain ⟨hlast, hempty, hstop⟩ := hpool
    rw [momentsIn_concat, submitted_concat, begun_concat, hsubmitted, hbegun, hlast]
    exact ⟨hstop, hempty, congrArg Option.toList hnone, rfl⟩

/-- The moment in which the pool is closed. -/
theorem Move.closed {k : Nat} (h : Move i l (.closed k) l') (hfirst : OnlyFirst i run l) :
    l.scene.world.pool.stopped = false ∧ l'.scene.world.pool.stopped = true ∧
      l'.scene.world.pool.queue = [] := by
  cases h with
  | close hk => exact ⟨(hfirst.of_stopping hk).2.2.2, rfl, rfl⟩

theorem filterMap_momentsIn {α : Type} {past later : List Instant} {x : Instant}
    {f : Moment → Option α} (hx : f x.moment = none) (hlater : (momentsIn later).filterMap f = []) :
    (momentsIn (past ++ x :: later)).filterMap f = (momentsIn past).filterMap f := by
  rw [momentsIn, List.map_append, List.map_cons, List.filterMap_append, List.filterMap_cons_none hx]
  exact (congrArg _ hlater).trans (List.append_nil _)

/-- **Closing the pool drops the jobs that wait.**  Once no job runs any more, the task of a job
that was submitted shows a record, unless the job waited in the queue in the moment in which the
shutdown closed the pool; then the task shows a running job, though nobody will ever work on it. -/
theorem done_iff_not_waiting {past later : List Instant} {x : Instant} {k : Nat}
    (h : Lasts i (.initial i now seed) (past ++ x :: later) l) (hclosed : x.what = .closed k)
    (hidle : l.scene.world.pool.running = [])
    (hjob : job ∈ submitted (momentsIn (past ++ x :: later))) :
    ∃ t, l.scene.world.task? job.ref = some t ∧
      (t.record?.isSome ↔ job ∉ x.before.scene.world.pool.queue) := by
  obtain ⟨t, ht, hdone⟩ := done_iff_begun h hidle hjob
  refine ⟨t, ht, hdone.trans ?_⟩
  obtain ⟨hpast, hmove, hlater⟩ := h.split
  rw [hclosed] at hmove
  obtain ⟨hopen, hstopped, hqueue⟩ := hmove.closed (onlyFirst_lasts hpast)
  obtain ⟨-, -, hnoneSubmitted, hnoneBegun⟩ := lasts_of_closed hlater hstopped hqueue
  have hother : x.moment.deed = .other := by simp only [Instant.moment, hclosed]
  have hsubmitted : submitted (momentsIn (past ++ x :: later)) = submitted (momentsIn past) :=
    filterMap_momentsIn (by rw [hother]; rfl) hnoneSubmitted
  have hbegun : begun (momentsIn (past ++ x :: later)) = begun (momentsIn past) :=
    filterMap_momentsIn (by rw [hother]; rfl) hnoneBegun
  -- Until then no job was lost: each was begun, or waits, and none is both.
  have hbooked := (staffed_lasts hpast).1.toBooked
  have hkept := hbooked.kept hopen
  have hapart := List.nodup_append.1 (hkept ▸ List.Nodup.of_map _ hbooked.refs)
  rw [hsubmitted, ← hkept, List.mem_append] at hjob
  rw [hbegun]
  exact ⟨fun hbegun hwaiting => hapart.2.2 job hbegun job hwaiting rfl, hjob.resolve_right⟩

/-- The shutdown comes before a worker has taken up the job. -/
theorem waiting_job_never_done :
    let i : Interpreter := ⟨.default, .ofEntries Strategy.builtin [], .builtin, []⟩
    ∃ run l job t, Lasts i (.initial i 0 1) run l ∧
      (∃ failures, .returned 0 failures ∈ run.map Instant.what) ∧
      job ∈ submitted (momentsIn run) ∧ l.scene.world.pool.running = [] ∧
      l.scene.world.task? job.ref = some t ∧ t.record? = none := by
  intro i
  let w : World := .initial .default 0 1
  let submitting := World.submit i (.caller 0) "task" "line" w
  let waiting : Life := ⟨⟨submitting.2, []⟩, 0, fun _ => none⟩
  have hsubmit : Act i ⟨w, []⟩
      (.asked (.caller 0) none (.submit "task" "line") (submitting.1.map (·.generation)))
      ⟨submitting.2, []⟩ := .ask (by simp) rfl
  have hfirst := (Lasts.none (l := .initial i 0 1)).move (.act hsubmit rfl)
  obtain ⟨more, x, hmore, hx⟩ := exists_lasts_shutdown i waiting rfl
  exact ⟨_, _, ⟨0, 1, .thread 1, "line"⟩, _, hfirst.trans hmore,
    ⟨_, List.mem_map.2 ⟨x, by simp, hx⟩⟩, List.mem_filterMap.2 ⟨_, List.mem_cons_self, rfl⟩, rfl,
    rfl, rfl⟩

end CommandShell
