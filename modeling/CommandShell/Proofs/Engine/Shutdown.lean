import CommandShell.Proofs.Engine.Ending
import CommandShell.Proofs.Registry.Order
import Mathlib.Logic.Function.Basic
/-!
# Shutting down among others

A call of the shutdown does not come to its end at once: the first one to be made takes the flag,
runs the handlers of the stop one after the other, closes the pool and returns; any other returns
with nothing.  Between any two of these moves others may act, call for the shutdown themselves,
submit jobs or have them run.

    Move i l what l'          one move of a call of the shutdown, or an act of somebody else
    Lasts i l run l'          a life of an interpreter, move by move
    what `World.shutdown` does is a call of the shutdown in a row      (exists_lasts_shutdown)
    only the first call runs handlers, and it runs them all, by priority      (onlyFirst_lasts)
    once it has returned every submission is refused              (shutdown_happens_once)
-/

namespace CommandShell

open World

/-- How far a call of the shutdown has come: it runs the handlers that are left, or it has only to
return with the failures. -/
inductive ShutdownStage where
  | stopping (left : List Entry) (failures : List LifecycleFailure)
  | leaving (failures : List LifecycleFailure)

namespace World

/-- Whoever calls for the shutdown first takes the flag and runs the handlers of the stop. -/
def beginShutdown (i : Interpreter) (w : World) : ShutdownStage × World :=
  if w.shutDown then (.leaving [], w)
  else (.stopping (i.registry.byPriority .stop) [], { w with shutDown := true })

/-- Closes the pool: jobs that wait are dropped, running ones go on. -/
def closePool (w : World) : World := { w with pool := { w.pool with queue := [], stopped := true } }

/-- The shutdown at one go. -/
theorem shutdown_eq (i : Interpreter) (w : World) :
    w.shutdown i =
      if w.shutDown then ([], w)
      else (i.registry.stopAll.2,
        (({ w with shutDown := true } : World).log i.registry.stopAll.1).closePool) := by
  unfold shutdown
  split <;> rfl

end World

/-- An interpreter at work, how many calls of its shutdown were made, and how far those have come
that have not returned. -/
structure Life where
  scene : Scene
  calls : Nat
  pending : Nat → Option ShutdownStage

/-- What happens in a life: an act, or a move of the call of the shutdown with that number. -/
inductive Occurrence where
  | act (deed : Deed)
  | called (k : Nat)
  | handled (k : Nat) (e : Entry)
  | closed (k : Nat)
  | returned (k : Nat) (failures : List LifecycleFailure)

/-- One move.  Acts of others do not take the flag. -/
inductive Move (i : Interpreter) : Life → Occurrence → Life → Prop
  | act {l : Life} {deed : Deed} {s : Scene} (h : Act i l.scene deed s)
      (hflag : s.world.shutDown = l.scene.world.shutDown) :
      Move i l (.act deed) { l with scene := s }
  | call (l : Life) :
      Move i l (.called l.calls)
        ⟨⟨(l.scene.world.beginShutdown i).2, l.scene.waiting⟩, l.calls + 1,
          Function.update l.pending l.calls (some (l.scene.world.beginShutdown i).1)⟩
  | handle {l : Life} {k : Nat} {e : Entry} {left : List Entry} {failures : List LifecycleFailure}
      (h : l.pending k = some (.stopping (e :: left) failures)) :
      Move i l (.handled k e)
        ⟨⟨l.scene.world.log [.stopped e.name], l.scene.waiting⟩, l.calls,
          Function.update l.pending k
            (some (.stopping left (failures ++ e.stopFailure?.toList)))⟩
  | close {l : Life} {k : Nat} {failures : List LifecycleFailure}
      (h : l.pending k = some (.stopping [] failures)) :
      Move i l (.closed k)
        ⟨⟨l.scene.world.closePool, l.scene.waiting⟩, l.calls,
          Function.update l.pending k (some (.leaving failures))⟩
  | leave {l : Life} {k : Nat} {failures : List LifecycleFailure}
      (h : l.pending k = some (.leaving failures)) :
      Move i l (.returned k failures) { l with pending := Function.update l.pending k none }

/-- A move, and the life before and after it. -/
structure Instant where
  before : Life
  what : Occurrence
  after : Life

/-- The life of an interpreter as it starts. -/
def Life.initial (i : Interpreter) (now : Timestamp) (seed : Nat) : Life :=
  ⟨.initial i now seed, 0, fun _ => none⟩

/-- What may come about in a life, move by move. -/
inductive Lasts (i : Interpreter) (l : Life) : List Instant → Life → Prop
  | none : Lasts i l [] l
  | move {run : List Instant} {l' l'' : Life} {what : Occurrence} (h : Lasts i l run l')
      (hmove : Move i l' what l'') : Lasts i l (run ++ [⟨l', what, l''⟩]) l''

/-- The handler of the stop that ran in an instant. -/
def Instant.handler? (x : Instant) : Option Entry :=
  match x.what with
  | .handled _ e => some e
  | _ => none

/-- The handlers of the stop that ran, in order. -/
def handlersRun (run : List Instant) : List Entry := run.filterMap Instant.handler?

section

variable {i : Interpreter} {l l' l'' : Life} {run more : List Instant} {what : Occurrence}
  {k : Nat} {failures : List LifecycleFailure}

theorem Lasts.trans (h : Lasts i l run l') (h' : Lasts i l' more l'') :
    Lasts i l (run ++ more) l'' := by
  induction h' with
  | none => simpa using h
  | move _ hmove ih => simpa only [List.append_assoc] using ih.move hmove

theorem Move.lasts (h : Move i l what l') : Lasts i l [⟨l, what, l'⟩] l' := Lasts.none.move h

/-- A life parts at any of its instants. -/
theorem Lasts.split {past later : List Instant} {x : Instant}
    (h : Lasts i l (past ++ x :: later) l') :
    Lasts i l past x.before ∧ Move i x.before x.what x.after ∧ Lasts i x.after later l' := by
  generalize hrun : past ++ x :: later = run at h
  induction h generalizing later with
  | none => simp at hrun
  | @move run l' l'' what h hmove ih =>
    -- Runs grow at their end, so the last instant is the one at which to part, or a later one.
    rcases List.eq_nil_or_concat later with rfl | ⟨later, y, rfl⟩
    · obtain ⟨rfl, hlast⟩ := List.append_inj' hrun rfl
      cases hlast
      exact ⟨h, hmove, .none⟩
    · have hshorter : (past ++ x :: later) ++ [y] = run ++ [⟨l', what, l''⟩] := by simpa using hrun
      obtain ⟨hshort, hlast⟩ := List.append_inj' hshorter rfl
      cases hlast
      obtain ⟨hpast, hx, hlater⟩ := ih hshort
      rw [List.concat_eq_append]
      exact ⟨hpast, hx, hlater.move hmove⟩

/-! ## The shutdown in a row -/

/-- A call that runs handlers may go through all that are left. -/
theorem exists_lasts_handled {left : List Entry} (hleft : ∀ e ∈ left, e.kind = .stop)
    (h : l.pending k = some (.stopping left failures)) :
    ∃ more, Lasts i l more
      ⟨⟨l.scene.world.log (Registry.stopChain left).1, l.scene.waiting⟩, l.calls,
        Function.update l.pending k
          (some (.stopping [] (failures ++ (Registry.stopChain left).2)))⟩ := by
  induction left generalizing l failures with
  | nil =>
    have hsame :
        Function.update l.pending k (some (.stopping [] (failures ++ []))) = l.pending := by
      rw [List.append_nil, ← h, Function.update_eq_self]
    refine ⟨[], ?_⟩
    rw [Registry.stopChain, hsame, log, List.append_nil]
    exact .none
  | cons e left ih =>
    have he := hleft e List.mem_cons_self
    let next : Life := ⟨⟨l.scene.world.log [.stopped e.name], l.scene.waiting⟩, l.calls,
      Function.update l.pending k (some (.stopping left (failures ++ e.stopFailure?.toList)))⟩
    have hnext : next.pending k = some (.stopping left (failures ++ e.stopFailure?.toList)) :=
      Function.update_self ..
    obtain ⟨more, hmore⟩ := ih (fun f hf => hleft f (List.mem_cons_of_mem _ hf)) hnext
    rw [Registry.stopChain_cons he]
    rw [log_log, Function.update_idem, List.append_assoc] at hmore
    exact ⟨_, (Move.handle h).lasts.trans hmore⟩

/-- Then it closes the pool and returns. -/
theorem exists_lasts_stopping {left : List Entry} (hleft : ∀ e ∈ left, e.kind = .stop)
    (h : l.pending k = some (.stopping left failures)) :
    ∃ more x, Lasts i l (more ++ [x])
        ⟨⟨(l.scene.world.log (Registry.stopChain left).1).closePool, l.scene.waiting⟩, l.calls,
          Function.update l.pending k none⟩ ∧
      x.what = .returned k (failures ++ (Registry.stopChain left).2) := by
  obtain ⟨more, hmore⟩ := exists_lasts_handled (i := i) hleft h
  have hclosed := hmore.move (.close (Function.update_self ..))
  have hleft := hclosed.move (.leave (Function.update_self ..))
  rw [Function.update_idem, Function.update_idem] at hleft
  exact ⟨_, _, hleft, rfl⟩

/-- What the shutdown does at one go is a call of it in a row. -/
theorem exists_lasts_shutdown (i : Interpreter) (l : Life) (hfresh : l.pending l.calls = none) :
    ∃ more x, Lasts i l (more ++ [x])
        ⟨⟨(l.scene.world.shutdown i).2, l.scene.waiting⟩, l.calls + 1, l.pending⟩ ∧
      x.what = .returned l.calls (l.scene.world.shutdown i).1 := by
  have hcall := (Move.call (i := i) l).lasts
  have hforget (stage : Option ShutdownStage) :
      Function.update (Function.update l.pending l.calls stage) l.calls none = l.pending := by
    rw [Function.update_idem, ← hfresh, Function.update_eq_self]
  rw [shutdown_eq]
  cases hflag : l.scene.world.shutDown with
  | true =>
    have hbegin : l.scene.world.beginShutdown i = (.leaving [], l.scene.world) := if_pos hflag
    rw [hbegin] at hcall
    have hleft := hcall.move (.leave (Function.update_self ..))
    rw [hforget] at hleft
    exact ⟨_, _, hleft, rfl⟩
  | false =>
    have hbegin : l.scene.world.beginShutdown i = (.stopping (i.registry.byPriority .stop) [],
        { l.scene.world with shutDown := true }) := if_neg (by simp [hflag])
    rw [hbegin] at hcall
    let begun : Life := ⟨⟨{ l.scene.world with shutDown := true }, l.scene.waiting⟩, l.calls + 1,
      Function.update l.pending l.calls (some (.stopping (i.registry.byPriority .stop) []))⟩
    have hpending : begun.pending l.calls = some (.stopping (i.registry.byPriority .stop) []) :=
      Function.update_self ..
    obtain ⟨more, x, hmore, hx⟩ := exists_lasts_stopping (i := i)
      (fun e he => Registry.kind_of_mem_byPriority he) hpending
    rw [hforget] at hmore
    have hall := hcall.trans hmore
    rw [← List.append_assoc] at hall
    exact ⟨_, x, hall, hx⟩

/-! ## Only the first call runs handlers -/

/-- How far the first call has come, by what the life has seen so far: it was not made, it runs
the handlers, it has closed the pool, or it has returned. -/
inductive FirstCall (i : Interpreter) (ran : List Entry) (l : Life) : Prop
  | unmade (hcalls : l.calls = 0) (hran : ran = [])
      (hopen : l.scene.world.pool.stopped = false)
  | stopping {left : List Entry} {failures : List LifecycleFailure}
      (h : l.pending 0 = some (.stopping left failures))
      (hran : ran ++ left = i.registry.byPriority .stop)
      (hfailures : failures = ran.filterMap Entry.stopFailure?)
      (hopen : l.scene.world.pool.stopped = false)
  | leaving {failures : List LifecycleFailure} (h : l.pending 0 = some (.leaving failures))
      (hran : ran = i.registry.byPriority .stop)
      (hfailures : failures = i.registry.stopAll.2)
      (hstopped : l.scene.world.pool.stopped = true)
  | returned (h : l.pending 0 = none) (hcalls : l.calls ≠ 0)
      (hran : ran = i.registry.byPriority .stop) (hstopped : l.scene.world.pool.stopped = true)

theorem FirstCall.keep {ran : List Entry} (h : FirstCall i ran l)
    (hpending : l'.pending 0 = l.pending 0) (hcalls : l'.calls = 0 ↔ l.calls = 0)
    (hstopped : l'.scene.world.pool.stopped = l.scene.world.pool.stopped) :
    FirstCall i ran l' := by
  cases h with
  | unmade hnone hran hopen => exact .unmade (hcalls.2 hnone) hran (hstopped.trans hopen)
  | stopping h hran hfailures hopen =>
    exact .stopping (hpending.trans h) hran hfailures (hstopped.trans hopen)
  | leaving h hran hfailures hstop =>
    exact .leaving (hpending.trans h) hran hfailures (hstopped.trans hstop)
  | returned h hmade hran hstop =>
    exact .returned (hpending.trans h) (mt hcalls.1 hmade) hran (hstopped.trans hstop)

/-- What every life keeps: the flag is down as long as no call was made, calls are numbered in the
order in which they were made, and all but the first have nothing to do but to return. -/
structure OnlyFirst (i : Interpreter) (run : List Instant) (l : Life) : Prop where
  flag : l.scene.world.shutDown = true ↔ l.calls ≠ 0
  numbers : ∀ k stage, l.pending k = some stage → k < l.calls
  others : ∀ k stage, k ≠ 0 → l.pending k = some stage → stage = .leaving []
  logged : l.scene.world.ending.ran = (handlersRun run).map Entry.name
  first : FirstCall i (handlersRun run) l
  stopped : (∃ failures, .returned 0 failures ∈ run.map Instant.what) →
    l.scene.world.pool.stopped = true

theorem onlyFirst_initial (i : Interpreter) (now : Timestamp) (seed : Nat) :
    OnlyFirst i [] (.initial i now seed) where
  flag := by simp [Life.initial, Scene.initial, World.initial]
  numbers _ _ h := by cases h
  others _ _ _ h := by cases h
  logged := rfl
  first := .unmade rfl rfl rfl
  stopped h := by simp at h

theorem handlersRun_concat (run : List Instant) (x : Instant) :
    handlersRun (run ++ [x]) = handlersRun run ++ x.handler?.toList := by
  rw [handlersRun, List.filterMap_append]
  cases h : x.handler? <;> simp [handlersRun, h]

/-- An act that does not take the flag is of no matter to the end of the interpreter. -/
theorem ending_of_flag {s s' : Scene} {deed : Deed} (h : Act i s deed s')
    (hflag : s'.world.shutDown = s.world.shutDown) : s'.world.ending = s.world.ending := by
  rcases h.ending with h | h
  · exact h
  · rw [h] at hflag ⊢
    rw [shutdown_eq] at hflag ⊢
    split
    · rfl
    · next hdown =>
      rw [if_neg hdown] at hflag
      exact absurd hflag.symm hdown

/-- The stage of a call after one call has moved. -/
theorem eq_or_of_update {stages : Nat → Option ShutdownStage} {j : Nat}
    {new : Option ShutdownStage} {stage : ShutdownStage}
    (h : Function.update stages j new k = some stage) :
    k = j ∧ new = some stage ∨ stages k = some stage := by
  by_cases hk : k = j
  · subst hk
    rw [Function.update_self] at h
    exact Or.inl ⟨rfl, h⟩
  · rw [Function.update_of_ne hk] at h
    exact Or.inr h

namespace OnlyFirst

/-- What is left to show of a move. -/
theorem next {x : Instant} (h : OnlyFirst i run l)
    (hflag : l'.scene.world.shutDown = true ↔ l'.calls ≠ 0) (hcalls : l.calls ≤ l'.calls)
    (hpending : ∀ k stage, l'.pending k = some stage →
      (k < l'.calls ∧ (k ≠ 0 → stage = .leaving [])) ∨ l.pending k = some stage)
    (hlogged : l'.scene.world.ending.ran =
      l.scene.world.ending.ran ++ x.handler?.toList.map Entry.name)
    (hfirst : FirstCall i (handlersRun run ++ x.handler?.toList) l')
    (hstopped : l.scene.world.pool.stopped = true ∨ (∃ failures, x.what = .returned 0 failures) →
      l'.scene.world.pool.stopped = true) : OnlyFirst i (run ++ [x]) l' where
  flag := hflag
  numbers k stage hk := by
    rcases hpending k stage hk with ⟨hlt, -⟩ | hold
    · exact hlt
    · exact Nat.lt_of_lt_of_le (h.numbers k stage hold) hcalls
  others k stage hne hk := by
    rcases hpending k stage hk with ⟨-, hnew⟩ | hold
    · exact hnew hne
    · exact h.others k stage hne hold
  logged := by rw [handlersRun_concat, List.map_append, ← h.logged, hlogged]
  first := by
    rw [handlersRun_concat]
    exact hfirst
  stopped := by
    rintro ⟨failures, hreturned⟩
    rw [List.map_append, List.mem_append] at hreturned
    rcases hreturned with hreturned | hreturned
    · exact hstopped (Or.inl (h.stopped ⟨failures, hreturned⟩))
    · exact hstopped (Or.inr ⟨failures, (List.mem_singleton.1 hreturned).symm⟩)

/-- And of one that runs no handler. -/
theorem next_quiet {x : Instant} (h : OnlyFirst i run l) (hnone : x.handler? = none)
    (hflag : l'.scene.world.shutDown = true ↔ l'.calls ≠ 0) (hcalls : l.calls ≤ l'.calls)
    (hpending : ∀ k stage, l'.pending k = some stage →
      (k < l'.calls ∧ (k ≠ 0 → stage = .leaving [])) ∨ l.pending k = some stage)
    (hlogged : l'.scene.world.ending.ran = l.scene.world.ending.ran)
    (hfirst : FirstCall i (handlersRun run) l')
    (hstopped : l.scene.world.pool.stopped = true ∨ (∃ failures, x.what = .returned 0 failures) →
      l'.scene.world.pool.stopped = true) : OnlyFirst i (run ++ [x]) l' := by
  refine h.next hflag hcalls hpending ?_ ?_ hstopped
  · rw [hnone, hlogged]
    exact (List.append_nil _).symm
  · rw [hnone]
    exact (List.append_nil (handlersRun run)).symm ▸ hfirst

/-- Only the first call has handlers to run. -/
theorem of_stopping (h : OnlyFirst i run l) {left : List Entry}
    (hk : l.pending k = some (.stopping left failures)) :
    k = 0 ∧ handlersRun run ++ left = i.registry.byPriority .stop ∧
      failures = (handlersRun run).filterMap Entry.stopFailure? ∧
      l.scene.world.pool.stopped = false := by
  obtain rfl : k = 0 := by
    refine Decidable.byContradiction fun hne => ?_
    cases h.others k _ hne hk
  cases h.first with
  | unmade hcalls => exact absurd (h.numbers 0 _ hk) (by rw [hcalls]; exact Nat.lt_irrefl 0)
  | stopping hk' hran hfailures hopen =>
    cases hk.symm.trans hk'
    exact ⟨rfl, hran, hfailures, hopen⟩
  | leaving hk' => cases hk.symm.trans hk'
  | returned hk' => cases hk.symm.trans hk'

/-- Any other returns with nothing. -/
theorem of_leaving (h : OnlyFirst i run l) (hk : l.pending k = some (.leaving failures)) :
    (k = 0 ∧ handlersRun run = i.registry.byPriority .stop ∧ failures = i.registry.stopAll.2 ∧
      l.scene.world.pool.stopped = true) ∨ (k ≠ 0 ∧ failures = []) := by
  by_cases hne : k = 0
  · subst hne
    cases h.first with
    | unmade hcalls => exact absurd (h.numbers 0 _ hk) (by rw [hcalls]; exact Nat.lt_irrefl 0)
    | stopping hk' => cases hk.symm.trans hk'
    | leaving hk' hran hfailures hstopped =>
      cases hk.symm.trans hk'
      exact Or.inl ⟨rfl, hran, hfailures, hstopped⟩
    | returned hk' => cases hk.symm.trans hk'
  · cases h.others k _ hne hk
    exact Or.inr ⟨hne, rfl⟩

theorem act {deed : Deed} {s : Scene} (h : OnlyFirst i run l) (hact : Act i l.scene deed s)
    (hflag : s.world.shutDown = l.scene.world.shutDown) :
    OnlyFirst i (run ++ [⟨l, .act deed, { l with scene := s }⟩]) { l with scene := s } := by
  have hending := ending_of_flag hact hflag
  have hstopped : s.world.pool.stopped = l.scene.world.pool.stopped :=
    congrArg Ending.stopped hending
  refine h.next_quiet rfl ?_ (Nat.le_refl _) (fun _ _ hk => Or.inr hk)
    (congrArg Ending.ran hending) (h.first.keep rfl Iff.rfl hstopped) ?_
  · exact (iff_of_eq (congrArg (· = true) hflag)).trans h.flag
  · rintro (hstop | ⟨_, ⟨⟩⟩)
    exact hstopped.trans hstop

/-- The first call to be made takes the flag and has all handlers to run; any other finds the flag
taken. -/
theorem call (h : OnlyFirst i run l) :
    let l' : Life := ⟨⟨(l.scene.world.beginShutdown i).2, l.scene.waiting⟩, l.calls + 1,
      Function.update l.pending l.calls (some (l.scene.world.beginShutdown i).1)⟩
    OnlyFirst i (run ++ [⟨l, .called l.calls, l'⟩]) l' := by
  cases hflag : l.scene.world.shutDown with
  | true =>
    have hne : l.calls ≠ 0 := h.flag.1 hflag
    rw [beginShutdown, if_pos hflag]
    intro l'
    refine h.next_quiet rfl ?_ (Nat.le_succ _) (fun k stage hk => ?_) rfl ?_ ?_
    · exact iff_of_true hflag (Nat.succ_ne_zero _)
    · rcases eq_or_of_update hk with ⟨rfl, hnew⟩ | hold
      · exact Or.inl ⟨Nat.lt_succ_self _, fun _ => (Option.some.inj hnew).symm⟩
      · exact Or.inr hold
    · exact h.first.keep (Function.update_of_ne hne.symm ..)
        (iff_of_false (Nat.succ_ne_zero _) hne) rfl
    · rintro (hstop | ⟨_, ⟨⟩⟩)
      exact hstop
  | false =>
    -- While the flag is down nobody has called, and no handler has run.
    have hcalls : l.calls = 0 := by
      refine Decidable.byContradiction fun hne => ?_
      rw [h.flag.2 hne] at hflag
      cases hflag
    obtain ⟨hran, hopen⟩ :
        handlersRun run = [] ∧ l.scene.world.pool.stopped = false := by
      cases h.first with
      | unmade _ hran hopen => exact ⟨hran, hopen⟩
      | stopping hk | leaving hk => exact absurd (h.numbers 0 _ hk) (by simp [hcalls])
      | returned _ hmade => exact absurd hcalls hmade
    rw [beginShutdown, if_neg (by simp [hflag])]
    intro l'
    refine h.next_quiet rfl ?_ (Nat.le_succ _) (fun k stage hk => ?_) rfl ?_ ?_
    · exact iff_of_true rfl (Nat.succ_ne_zero _)
    · rcases eq_or_of_update hk with ⟨rfl, hnew⟩ | hold
      · exact Or.inl ⟨Nat.lt_succ_self _, fun hne => absurd hcalls hne⟩
      · exact Or.inr hold
    · have hstage : l'.pending 0 = some (.stopping (i.registry.byPriority .stop) []) := by
        rw [← hcalls]
        exact Function.update_self l.calls _ l.pending
      rw [hran]
      exact .stopping hstage rfl rfl hopen
    · rintro (hstop | ⟨_, ⟨⟩⟩)
      exact hstop

/-- A move of the first call leaves the others where they are. -/
theorem pending_update {old : ShutdownStage} (h : OnlyFirst i run l) (hk : l.pending 0 = some old)
    {new : Option ShutdownStage} (j : Nat) (stage : ShutdownStage)
    (hnew : Function.update l.pending 0 new j = some stage) :
    (j < l.calls ∧ (j ≠ 0 → stage = .leaving [])) ∨ l.pending j = some stage := by
  rcases eq_or_of_update hnew with ⟨rfl, -⟩ | hold
  · exact Or.inl ⟨h.numbers 0 _ hk, fun hne => absurd rfl hne⟩
  · exact Or.inr hold

theorem handle {e : Entry} {left : List Entry} (h : OnlyFirst i run l)
    (hk : l.pending k = some (.stopping (e :: left) failures)) :
    let l' : Life := ⟨⟨l.scene.world.log [.stopped e.name], l.scene.waiting⟩, l.calls,
      Function.update l.pending k (some (.stopping left (failures ++ e.stopFailure?.toList)))⟩
    OnlyFirst i (run ++ [⟨l, .handled k e, l'⟩]) l' := by
  obtain ⟨rfl, hran, hfailures, hopen⟩ := h.of_stopping hk
  intro l'
  refine h.next h.flag (Nat.le_refl _) (h.pending_update hk) List.filterMap_append ?_ ?_
  · have hstage : l'.pending 0 = some (.stopping left (failures ++ e.stopFailure?.toList)) :=
      Function.update_self 0 _ l.pending
    refine .stopping hstage ((List.append_assoc ..).trans hran) ?_ hopen
    rw [hfailures, List.filterMap_append]
    cases hfailure : e.stopFailure? <;> simp [Instant.handler?, hfailure]
  · rintro (hstop | ⟨_, ⟨⟩⟩)
    exact hstop

theorem close (h : OnlyFirst i run l) (hk : l.pending k = some (.stopping [] failures)) :
    let l' : Life := ⟨⟨l.scene.world.closePool, l.scene.waiting⟩, l.calls,
      Function.update l.pending k (some (.leaving failures))⟩
    OnlyFirst i (run ++ [⟨l, .closed k, l'⟩]) l' := by
  obtain ⟨rfl, hran, hfailures, -⟩ := h.of_stopping hk
  rw [List.append_nil] at hran
  intro l'
  refine h.next_quiet rfl h.flag (Nat.le_refl _) (h.pending_update hk) rfl ?_ fun _ => rfl
  have hstage : l'.pending 0 = some (.leaving failures) := Function.update_self 0 _ l.pending
  refine .leaving hstage hran ?_ rfl
  rw [hfailures, hran, Registry.stopAll_eq]

theorem leave (h : OnlyFirst i run l) (hk : l.pending k = some (.leaving failures)) :
    let l' : Life := { l with pending := Function.update l.pending k none }
    OnlyFirst i (run ++ [⟨l, .returned k failures, l'⟩]) l' := by
  intro l'
  refine h.next_quiet rfl h.flag (Nat.le_refl _) (fun j stage hnew => ?_) rfl ?_ ?_
  · rcases eq_or_of_update hnew with ⟨-, ⟨⟩⟩ | hold
    exact Or.inr hold
  · rcases h.of_leaving hk with ⟨rfl, hran, -, hstopped⟩ | ⟨hne, -⟩
    · exact .returned (Function.update_self 0 _ l.pending)
        (Nat.ne_of_gt (h.numbers 0 _ hk)) hran hstopped
    · exact h.first.keep (Function.update_of_ne hne.symm ..) Iff.rfl rfl
  · rcases h.of_leaving hk with ⟨rfl, -, -, hstopped⟩ | ⟨hne, -⟩
    · exact fun _ => hstopped
    · rintro (hstop | ⟨_, hzero⟩)
      · exact hstop
      · cases hzero
        exact absurd rfl hne

theorem move (h : OnlyFirst i run l) (hmove : Move i l what l') :
    OnlyFirst i (run ++ [⟨l, what, l'⟩]) l' := by
  cases hmove with
  | act hact hflag => exact h.act hact hflag
  | call => exact h.call
  | handle hk => exact h.handle hk
  | close hk => exact h.close hk
  | leave hk => exact h.leave hk

end OnlyFirst

theorem onlyFirst_lasts {now : Timestamp} {seed : Nat} (h : Lasts i (.initial i now seed) run l) :
    OnlyFirst i run l := by
  induction h with
  | none => exact onlyFirst_initial i now seed
  | move _ hmove ih => exact ih.move hmove

theorem OnlyFirst.ran_prefix (h : OnlyFirst i run l) :
    handlersRun run <+: i.registry.byPriority .stop := by
  cases h.first with
  | unmade _ hran =>
    rw [hran]
    exact List.nil_prefix
  | stopping _ hran => exact ⟨_, hran⟩
  | leaving _ hran | returned _ _ hran => exact ⟨[], (List.append_nil _).trans hran⟩

/-- A call that was made comes to return, if it is let go on. -/
theorem OnlyFirst.exists_returned (h : OnlyFirst i run l) {stage : ShutdownStage}
    (hk : l.pending k = some stage) :
    ∃ more x l' failures, Lasts i l (more ++ [x]) l' ∧ x.what = .returned k failures := by
  cases stage with
  | stopping left failures =>
    obtain ⟨-, hran, -⟩ := h.of_stopping hk
    have hleft (e : Entry) (he : e ∈ left) : e.kind = .stop :=
      Registry.kind_of_mem_byPriority (r := i.registry) (by
        rw [← hran]
        exact List.mem_append_right _ he)
    obtain ⟨more, x, hmore, hx⟩ := exists_lasts_stopping (i := i) hleft hk
    exact ⟨more, x, _, _, hmore, hx⟩
  | leaving failures => exact ⟨[], _, _, failures, (Move.leave hk).lasts, rfl⟩

/-- A submission gets the answer of the world. -/
theorem exists_submit_of_act {s s' : Scene} {th : Thread} {o : Option Job} {task line : String}
    {reply : (Request.submit task line).Reply}
    (h : Act i s (.asked th o (.submit task line) reply) s') :
    ∃ result w₁, s.world.submit i th task line = (result, w₁) ∧
      reply = result.map (·.generation) ∧ s'.world.sessions = w₁.sessions := by
  have hanswer {w₁ : World}
      (h : s.world.answer i th (.submit task line) = some (reply, w₁)) :
      s.world.submit i th task line = ((s.world.submit i th task line).1, w₁) ∧
        reply = (s.world.submit i th task line).1.map (·.generation) := by
    cases h
    exact ⟨rfl, rfl⟩
  generalize hw : s'.world = w'
  have hturn := h.turn
  rw [hw] at hturn
  cases hturn with
  | still hdeed => rcases hdeed with hdeed | ⟨inv, hdeed⟩ <;> cases hdeed
  | asked h => exact ⟨_, _, (hanswer h).1, (hanswer h).2, rfl⟩
  | proceeded hr hinv hscript h => exact ⟨_, _, (hanswer h).1, (hanswer h).2, rfl⟩

end

/-- **The shutdown happens once and closes the door.**  However calls of the shutdown, submissions,
other calls and the steps of jobs are interleaved, only the first call that is made runs handlers
of the stop.  It runs them by priority, each once, whether those before failed or not, and returns
when all of them have run, with exactly the failures, in their order; every later call returns
with none.  A call that was made can always go on to its return.  Every submission after the first
call has returned is refused, and a refused submission, whenever it is made, leaves the tasks of
every session as they were. -/
theorem shutdown_happens_once (i : Interpreter) (now : Timestamp) (seed : Nat)
    (run : List Instant) (l : Life) (h : Lasts i (.initial i now seed) run l) :
    Registry.ByPriority (i.registry.entries.filter fun e => e.kind = .stop)
        (i.registry.byPriority .stop) ∧
      handlersRun run <+: i.registry.byPriority .stop ∧
      l.scene.world.ending.ran = (handlersRun run).map Entry.name ∧
      (∀ k stage, l.pending k = some stage →
        ∃ more x l' failures, Lasts i l (more ++ [x]) l' ∧ x.what = .returned k failures) ∧
      ∀ past x later, run = past ++ x :: later →
        (∀ k e, x.what = .handled k e → k = 0) ∧
        (∀ k failures, x.what = .returned k failures →
          (k = 0 ∧ handlersRun past = i.registry.byPriority .stop ∧
            failures = (i.registry.byPriority .stop).filterMap Entry.stopFailure?) ∨
          (k ≠ 0 ∧ failures = [])) ∧
        ∀ th o task line reply, x.what = .act (.asked th o (.submit task line) reply) →
          ((∃ failures, .returned 0 failures ∈ past.map Instant.what) →
            reply = .error (refusal line)) ∧
          ∀ e, reply = .error e → ∀ n,
            (x.after.scene.world.session n).tasks = (x.before.scene.world.session n).tasks := by
  have hall := onlyFirst_lasts h
  refine ⟨Registry.ordered_byPriority i.registry .stop, hall.ran_prefix, hall.logged,
    fun k stage hk => hall.exists_returned hk, ?_⟩
  rintro past ⟨before, what, after⟩ later rfl
  obtain ⟨hpast, hmove, -⟩ := h.split
  have hbefore := onlyFirst_lasts hpast
  dsimp only at hbefore hmove ⊢
  refine ⟨?_, ?_, ?_⟩
  · rintro k e rfl
    cases hmove with
    | handle hk => exact (hbefore.of_stopping hk).1
  · rintro k failures rfl
    cases hmove with
    | leave hk =>
      rcases hbefore.of_leaving hk with ⟨hzero, hran, hfailures, -⟩ | hother
      · rw [Registry.stopAll_eq] at hfailures
        exact Or.inl ⟨hzero, hran, hfailures⟩
      · exact Or.inr hother
  · rintro th o task line reply rfl
    cases hmove with
    | act hact =>
      obtain ⟨result, w₁, hsubmit, rfl, hsessions⟩ := exists_submit_of_act hact
      refine ⟨fun hreturned => ?_, fun e he n => ?_⟩
      · have hrefused := submit_of_stopped i th task line (hbefore.stopped hreturned)
        rw [hsubmit] at hrefused
        cases hrefused
        rfl
      · cases result with
        | ok ref => cases he
        | error e' =>
          rw [← tasks_of_refused hsubmit n]
          simp only [session, hsessions]

/-- A handler of the stop that runs before others, and fails. -/
def flushing : Entry :=
  { Entry.ofHandler "flush" (.stop (.error (.single "disk full"))) with priority := -1 }

/-- Another one. -/
def parting : Entry := Entry.ofHandler "part" (.stop (.ok ()))

theorem shutdown_goes_past_failure :
    let i : Interpreter :=
      ⟨.default, .ofEntries Strategy.builtin [parting, flushing], .builtin, []⟩
    ∃ past x l, Lasts i (.initial i 0 1) (past ++ [x]) l ∧
      .returned 0 [⟨"flush", .single "disk full"⟩] ∈ past.map Instant.what ∧
      .returned 1 [] ∈ past.map Instant.what ∧
      (∃ reply, x.what = .act (.asked (.caller 0) none (.submit "late" "echo") reply) ∧
        reply = .error .stopped ∧
        ∀ n, (x.after.scene.world.session n).tasks = (x.before.scene.world.session n).tasks) ∧
      l.scene.world.ending.ran = ["flush", "part"] := by
  intro i
  let w : World := .initial .default 0 1
  let w' : World := (w.shutdown i).2
  let submitting := World.submit i (.caller 0) "late" "echo" (w'.shutdown i).2
  obtain ⟨first, x, hfirst, hx⟩ := exists_lasts_shutdown i ⟨⟨w, []⟩, 0, fun _ => none⟩ rfl
  obtain ⟨second, y, hsecond, hy⟩ := exists_lasts_shutdown i ⟨⟨w', []⟩, 1, fun _ => none⟩ rfl
  have hsubmit : Act i ⟨(w'.shutdown i).2, []⟩
      (.asked (.caller 0) none (.submit "late" "echo") (submitting.1.map (·.generation)))
      ⟨submitting.2, []⟩ := .ask (by simp) rfl
  have h := (hfirst.trans hsecond).move (.act hsubmit rfl)
  obtain ⟨-, -, -, -, hall⟩ := shutdown_happens_once i 0 1 _ _ h
  obtain ⟨hreply, htasks⟩ := (hall _ _ [] rfl).2.2 _ _ _ _ _ rfl
  have hmem : .returned 0 [⟨"flush", .single "disk full"⟩] ∈
      (first ++ [x] ++ (second ++ [y])).map Instant.what :=
    List.mem_map.2 ⟨x, by simp, hx⟩
  have hrefused := hreply ⟨_, hmem⟩
  exact ⟨_, _, _, h, hmem, List.mem_map.2 ⟨y, by simp, hy⟩, ⟨_, rfl, hrefused, htasks _ hrefused⟩,
    rfl⟩

end CommandShell
