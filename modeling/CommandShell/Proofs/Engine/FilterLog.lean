import CommandShell.Parse.Builtin
import CommandShell.Proofs.Engine.Calls
import CommandShell.Proofs.Engine.Runs
/-!
# No way around the filters

However lines, direct calls and background jobs go on side by side, a handler is taken up only
right after all filters for its command were asked and allowed this very call.

    Clean i w         before every handler that was taken up stand the filters for its call
    Logged w inv      the handler of a call is in the log, unless it failed before
    Onward i w w'     what happened from w to w' keeps a clean log clean
    a step keeps the log clean, and the calls under way logged           (inOrder_step)
    a handler runs after all filters for its call                (handlers_run_filtered)
-/

namespace CommandShell

namespace World

variable {i : Interpreter} {th : Thread} {w w' w'' : World} {inv : Invocation} {call : Call}
  {args : Arguments} {n : Nat} {before : List Event}

/-- What was logged before a handler was taken up for a call: all filters for the command, asked
about this call, which they allowed. -/
structure Passed (i : Interpreter) (w : World) (before : List Event) (call : Call)
    (args : Arguments) : Prop where
  session : call.session < w.sessions.sessions.length
  entry : call.entry? = i.registry.command? call.typed
  command : args.command = i.registry.canonicalName call.typed
  asked : ∃ earlier, before = earlier ++
    (i.registry.filterChain args.command).map fun e => .filtered e.name (w.filterRequest i call)
  allowed : (i.registry.runFilters (w.filterRequest i call)).2 = none

/-- The filters stand before every handler in the log. -/
def Clean (i : Interpreter) (w : World) : Prop :=
  ∀ before call args after, w.events = before ++ .invoked call args :: after →
    Passed i w before call args

/-- The handler of a call is in the log, unless the call failed before. -/
def Logged (w : World) (inv : Invocation) : Prop :=
  (∃ f, inv.script = .done (.error f)) ∨ ∃ args, .invoked inv.toCall args ∈ w.events

/-- What happened from one world to the other was added to the log and keeps it clean. -/
structure Onward (i : Interpreter) (w w' : World) : Prop where
  sound : w.Sound → w'.Sound
  logged : ∀ event ∈ w.events, event ∈ w'.events
  clean : w.Clean i → w'.Clean i

theorem Onward.trans (h : Onward i w w') (h' : Onward i w' w'') : Onward i w w'' :=
  ⟨fun hw => h'.sound (h.sound hw), fun event he => h'.logged event (h.logged event he),
    fun hw => h'.clean (h.clean hw)⟩

theorem Logged.mono (h : Logged w inv) (hlog : ∀ event ∈ w.events, event ∈ w'.events) :
    Logged w' inv := by
  rcases h with h | ⟨args, h⟩
  · exact Or.inl h
  · exact Or.inr ⟨args, hlog _ h⟩

theorem Passed.keep (h : Passed i w before call args)
    (hlen : w.sessions.sessions.length ≤ w'.sessions.sessions.length)
    (hkey : ∀ n < w.sessions.sessions.length, (w'.session n).key = (w.session n).key) :
    Passed i w' before call args := by
  have hrequest : w'.filterRequest i call = w.filterRequest i call := by
    simp only [filterRequest, Session.label, hkey call.session h.session]
  refine ⟨Nat.lt_of_lt_of_le h.session hlen, h.entry, h.command, ?_, ?_⟩
  · rw [hrequest]
    exact h.asked
  · rw [hrequest]
    exact h.allowed

theorem Silent.logged (h : Silent w w') : ∀ event ∈ w.events, event ∈ w'.events := by
  intro event he
  rw [h.events]
  exact he

theorem onward_of_silent (h : Silent w w') : Onward i w w' where
  sound := h.sound
  logged := h.logged
  clean hw before call args after he := by
    rw [h.events] at he
    exact (hw before call args after he).keep h.sessions h.key

theorem Quiet.onward (h : Quiet w w') : Onward i w w' :=
  onward_of_silent h.toSilent

/-- What becomes of running jobs, and dropping jobs that wait, is of no matter to the log. -/
theorem onward_of_pool (hs : w'.sessions = w.sessions) (he : w'.events = w.events)
    (hq : ∀ job ∈ w'.pool.queue, job ∈ w.pool.queue) : Onward i w w' where
  sound hw := by
    refine ⟨?_, fun job hjob => ?_⟩
    · rw [hs]
      exact hw.known
    · rw [hs]
      exact hw.queued job (hq job hjob)
  logged event hevent := by
    rw [he]
    exact hevent
  clean hw before call args after hsplit := by
    rw [he] at hsplit
    have hsession (n : Nat) : w'.session n = w.session n := by rw [session, session, hs]
    exact (hw before call args after hsplit).keep (Nat.le_of_eq (by rw [hs]))
      fun n _ => by rw [hsession]

/-- Where an element of two joined lists stands. -/
theorem append_eq_split {α : Type} {xs ys before after : List α} {x : α}
    (h : xs ++ ys = before ++ x :: after) :
    (∃ rest, xs = before ++ x :: rest) ∨
      ∃ start, before = xs ++ start ∧ ys = start ++ x :: after := by
  rcases List.append_eq_append_iff.1 h with ⟨start, hbefore, hys⟩ | ⟨rest, hxs, hafter⟩
  · exact Or.inr ⟨start, hbefore, hys⟩
  · cases rest with
    | nil => exact Or.inr ⟨[], by simpa using hxs.symm, by simpa using hafter.symm⟩
    | cons y rest =>
      obtain ⟨rfl, -⟩ := List.cons.inj hafter
      exact Or.inl ⟨rest, hxs⟩

/-- A log stays clean if the filters stand before every handler that is added to it. -/
theorem onward_log {added : List Event}
    (h : ∀ start call args after, added = start ++ .invoked call args :: after →
      Passed i w (w.events ++ start) call args) : Onward i w (w.log added) where
  sound hw := ⟨hw.known, hw.queued⟩
  logged _ he := List.mem_append_left _ he
  clean hw before call args after he := by
    have hkeep {before : List Event} {call : Call} {args : Arguments}
        (hpassed : Passed i w before call args) : Passed i (w.log added) before call args :=
      hpassed.keep (Nat.le_refl _) fun _ _ => rfl
    rcases append_eq_split he with ⟨rest, hrest⟩ | ⟨start, hbefore, hadded⟩
    · exact hkeep (hw before call args rest hrest)
    · rw [hbefore]
      exact hkeep (h start call args after hadded)

theorem onward_log_of_no_handler {added : List Event}
    (h : ∀ call args, .invoked call args ∉ added) : Onward i w (w.log added) := by
  refine onward_log fun start call args after hadded => absurd ?_ (h call args)
  rw [hadded]
  exact List.mem_append_right _ List.mem_cons_self

/-! ## Calls -/

/-- A call begins with its filters, and goes to its handler only if they allow it. -/
theorem beginCall_onward (hn : n < w.sessions.sessions.length) (typed rawArgs : String)
    (arguments : Entry → Except ParseFailure (List Value)) :
    Onward i w (w.beginCall i n typed rawArgs arguments).2 ∧
      (w.beginCall i n typed rawArgs arguments).2.pool = w.pool ∧
      Logged (w.beginCall i n typed rawArgs arguments).2
        (w.beginCall i n typed rawArgs arguments).1 := by
  have hfilters := Registry.invoked_notMem_runFilters i.registry
    (w.filterRequest i (w.newCall i n typed rawArgs))
  cases hresult : (i.registry.runFilters
      (w.filterRequest i (w.newCall i n typed rawArgs))).2 with
  | some f =>
    rw [beginCall_of_rejected rfl hresult]
    exact ⟨onward_log_of_no_handler hfilters, rfl, Or.inl ⟨f, rfl⟩⟩
  | none =>
    cases hargs : arguments (i.registry.find typed) with
    | error cause =>
      rw [beginCall_of_unparsed rfl hresult hargs]
      exact ⟨onward_log_of_no_handler hfilters, rfl, Or.inl ⟨.parse cause, rfl⟩⟩
    | ok values =>
      rw [beginCall_of_admitted rfl hresult hargs]
      refine ⟨?_, rfl, Or.inr ⟨_, List.mem_append_right _ (List.mem_singleton_self _)⟩⟩
      refine (onward_log_of_no_handler hfilters).trans (onward_log ?_)
      intro start call args after hadded
      obtain ⟨rfl, hsingle, rfl⟩ : start = [] ∧
          Event.invoked call args = .invoked (w.newCall i n typed rawArgs)
            ⟨(w.filterRequest i (w.newCall i n typed rawArgs)).command, values⟩ ∧ after = [] := by
        cases start with
        | nil => simpa using hadded.symm
        | cons event start => simp at hadded
      obtain ⟨rfl, rfl⟩ := Event.invoked.inj hsingle
      refine ⟨hn, rfl, rfl, ⟨w.events, ?_⟩, hresult⟩
      rw [List.append_nil]
      exact congrArg (w.events ++ ·) (Registry.runChain_of_allows hresult)

theorem beginLine_onward {w₁ : World} {line : String} {console : Console}
    (h : w.beginLine i n line console = some (inv, w₁))
    (hn : n < w.sessions.sessions.length) :
    Onward i w w₁ ∧ w₁.pool = w.pool ∧ Logged w₁ inv := by
  cases hsplit : splitCommand line with
  | none =>
    rw [beginLine, hsplit] at h
    cases h
  | some cut =>
    obtain ⟨typed, rest⟩ := cut
    rw [beginLine_of_split console hsplit] at h
    have hchance : Quiet w { w with chance := (w.substituted n rest).2 } :=
      quiet_of_same rfl rfl rfl
    obtain ⟨honward, hpool, hlogged⟩ := beginCall_onward (i := i)
      (w := { w with chance := (w.substituted n rest).2 }) hn typed (w.substituted n rest).1
      fun e => i.parse e (w.substituted n rest).1 console w.order
    rw [Option.some.inj h] at honward hpool hlogged
    exact ⟨hchance.onward.trans honward, hpool, hlogged⟩

/-- What a step that runs a call keeps. -/
structure Kept (i : Interpreter) (w : World) (run : Called × World) : Prop where
  onward : Onward i w run.2
  running : run.2.pool.running = w.pool.running
  waiting : ∀ inv, run.1 = .waiting inv → Logged run.2 inv

theorem Kept.after {run : Called × World} (h : Kept i w' run) (ho : Onward i w w')
    (hr : w'.pool.running = w.pool.running) : Kept i w run :=
  ⟨ho.trans h.onward, h.running.trans hr, h.waiting⟩

theorem kept_runCall (h : Logged w inv) : Kept i w (w.runCall i th inv) := by
  rcases runCall_cases i th inv w with ⟨outcome, w₁, -, hquiet, hrun⟩ | ⟨rest, w₁, -, hquiet, hrun⟩
  · rw [hrun]
    have hsilent := hquiet.toSilent.trans (silent_modifySession w₁ inv.session
      (f := fun s => s.push (inv.record w₁.now outcome)) fun _ => rfl)
    refine ⟨onward_of_silent hsilent, hsilent.running, ?_⟩
    rintro _ ⟨⟩
  · rw [hrun]
    refine ⟨hquiet.onward, hquiet.running, ?_⟩
    rintro _ ⟨⟩
    rcases h with ⟨f, hdone⟩ | ⟨args, hlogged⟩
    · obtain ⟨call, script⟩ := inv
      subst hdone
      rw [runCall_of_done] at hrun
      cases hrun
    · exact Or.inr ⟨args, hquiet.toSilent.logged _ hlogged⟩

theorem kept_dispatch (hn : n < w.sessions.sessions.length) (th : Thread) (line : String)
    (console : Console) : Kept i w (w.dispatch i th n line console) := by
  unfold dispatch
  cases hbegin : w.beginLine i n line console with
  | none => exact ⟨onward_of_silent (.refl w), rfl, fun _ h => by cases h⟩
  | some begun =>
    obtain ⟨inv, w₁⟩ := begun
    obtain ⟨honward, hpool, hlogged⟩ := beginLine_onward hbegin hn
    exact (kept_runCall hlogged).after honward (congrArg Pool.running hpool)

theorem kept_execute (hw : w.Sound) (th : Thread) (line : String) :
    Kept i w (w.execute i th line) := by
  have hcurrent := quiet_current w th
  exact (kept_dispatch (locate_lt hw _) th line .terminal).after hcurrent.onward hcurrent.running

theorem kept_executeAs (hw : w.Sound) (th : Thread) (key : SessionKey) (line : String) :
    Kept i w (w.executeAs i th key line) := by
  have hbind := quiet_bind w th (some key)
  obtain ⟨honward, hrunning, hwaiting⟩ :=
    (kept_execute (i := i) (hbind.sound hw) th line).after hbind.onward hbind.running
  have hfree := quiet_bind (execute i th line (w.bind th (some key))).2 th (Assoc.get? th w.bound)
  exact ⟨honward.trans hfree.onward, hfree.running.trans hrunning, fun inv h =>
    (hwaiting inv h).mono hfree.toSilent.logged⟩

theorem kept_invoke (hw : w.Sound) (th : Thread) (name : String) (values : List Value) :
    Kept i w (w.invoke i th name values) := by
  have hcurrent := quiet_current w th
  obtain ⟨honward, hpool, hlogged⟩ := beginCall_onward (i := i) (locate_lt hw (w.currentKey th))
    name (valuesText values) fun _ => .ok values
  exact (kept_runCall hlogged).after (hcurrent.onward.trans honward)
    ((congrArg Pool.running hpool).trans hcurrent.running)

/-! ## Background jobs -/

/-- The calls of running jobs are logged. -/
def JobsLogged (w : World) : Prop :=
  ∀ r ∈ w.pool.running, ∀ inv, r.invocation = some inv → Logged w inv

theorem JobsLogged.keep (h : JobsLogged w) (hlog : ∀ event ∈ w.events, event ∈ w'.events)
    (hrun : ∀ r ∈ w'.pool.running, r ∈ w.pool.running) : JobsLogged w' :=
  fun r hr inv hinv => (h r (hrun r hr) inv hinv).mono hlog

theorem startNext_onward (hw : w.Sound) (hjobs : JobsLogged w) (h : w.startNext i = some w') :
    Onward i w w' ∧ JobsLogged w' := by
  obtain ⟨job, queue, invocation, w₁, hqueue, -, hbegun, rfl⟩ := startNext_cases h
  have hbind := quiet_bind w (.worker (freeWorker w.pool.running)) (some job.key)
  obtain ⟨honward, hpool, hnew⟩ : Onward i w w₁ ∧ w₁.pool = w.pool ∧
      ∀ inv, invocation = some inv → Logged w₁ inv := by
    rcases hbegun with ⟨-, rfl, rfl⟩ | ⟨inv, rfl, hbegin⟩
    · exact ⟨hbind.onward, rfl, fun _ h => by cases h⟩
    · obtain ⟨honward, hpool, hlogged⟩ := beginLine_onward hbegin (hw.queued job (by simp [hqueue]))
      refine ⟨hbind.onward.trans honward, hpool, fun inv' h => ?_⟩
      obtain rfl := Option.some.inj h
      exact hlogged
  refine ⟨honward.trans (onward_of_pool rfl rfl fun other hother => ?_), fun r hr inv hinv => ?_⟩
  · rw [hpool, hqueue]
    exact List.mem_cons_of_mem _ hother
  · rcases List.mem_append.1 hr with hr | hr
    · rw [hpool] at hr
      exact (hjobs r hr inv hinv).mono honward.logged
    · rw [List.mem_singleton.1 hr] at hinv
      exact hnew inv hinv

theorem releaseJob_onward (hjobs : JobsLogged w) (r : Running) (record : Record) :
    Onward i w (w.releaseJob r record) ∧ JobsLogged (w.releaseJob r record) := by
  have hcomplete : Quiet w (w.modifySession r.job.session fun s =>
      { s with tasks := s.tasks.complete r.job.generation record w.now }) :=
    quiet_modifySession w _ fun _ => ⟨rfl, rfl, rfl⟩
  have hquiet := hcomplete.trans (quiet_bind _ (.worker r.worker) r.previous)
  refine ⟨hquiet.onward.trans (onward_of_pool rfl rfl fun _ hjob => hjob), ?_⟩
  refine hjobs.keep hquiet.toSilent.logged fun q hq => ?_
  rw [← hquiet.running]
  exact (List.mem_filter.1 hq).1

theorem advance_onward {r : Running} (hr : r ∈ w.pool.running) (hjobs : JobsLogged w)
    (h : w.advance i r = some w') : Onward i w w' ∧ JobsLogged w' := by
  rcases advance_cases h with ⟨-, rfl⟩ | ⟨inv, outcome, -, -, rfl⟩ |
    ⟨inv, request, next, reply, w₁, hcall, hscript, hanswer, rfl⟩
  · exact releaseJob_onward hjobs r _
  · have hsilent : Silent w (w.finishCall inv outcome).2 :=
      silent_modifySession w _ fun _ => rfl
    have hkept : JobsLogged (w.finishCall inv outcome).2 :=
      hjobs.keep hsilent.logged fun _ hq => hq
    obtain ⟨honward, hjobs'⟩ := releaseJob_onward (i := i) hkept r (w.finishCall inv outcome).1
    exact ⟨(onward_of_silent hsilent).trans honward, hjobs'⟩
  · have hquiet := quiet_answer hanswer
    refine ⟨hquiet.onward.trans (onward_of_pool rfl rfl fun _ hjob => hjob),
      fun q hq inv' hinv => ?_⟩
    obtain ⟨p, hp, rfl⟩ := List.mem_map.1 hq
    rw [hquiet.running] at hp
    split at hinv
    · -- the job that moved on: its handler is in the log, for its script was not at its end
      obtain rfl := Option.some.inj hinv
      rcases hjobs r hr inv hcall with ⟨f, hdone⟩ | ⟨args, hargs⟩
      · rw [hscript] at hdone
        cases hdone
      · exact Or.inr ⟨args, hquiet.toSilent.logged _ hargs⟩
    · exact (hjobs p hp inv' hinv).mono hquiet.toSilent.logged

/-! ## Handlers of the start and of the stop -/

theorem started_of_mem_startChain {es : List Entry} {event : Event}
    (h : event ∈ (Registry.startChain es).1) : ∃ name, event = .started name := by
  induction es with
  | nil => cases h
  | cons e es ih =>
    unfold Registry.startChain at h
    split at h
    · exact ⟨e.name, List.mem_singleton.1 h⟩
    · rcases List.mem_cons.1 h with h | h
      · exact ⟨e.name, h⟩
      · exact ih h
    · exact ih h

theorem stopped_of_mem_stopChain {es : List Entry} {event : Event}
    (h : event ∈ (Registry.stopChain es).1) : ∃ name, event = .stopped name := by
  induction es with
  | nil => cases h
  | cons e es ih =>
    unfold Registry.stopChain at h
    dsimp only at h
    split at h
    · rcases List.mem_cons.1 h with h | h
      · exact ⟨e.name, h⟩
      · exact ih h
    · rcases List.mem_cons.1 h with h | h
      · exact ⟨e.name, h⟩
      · exact ih h
    · exact ih h

theorem start_onward (i : Interpreter) (w : World) : Onward i w (w.start i).2 := by
  refine onward_log_of_no_handler fun call args h => ?_
  obtain ⟨name, hname⟩ := started_of_mem_startChain h
  cases hname

theorem shutdown_onward (i : Interpreter) (w : World) : Onward i w (w.shutdown i).2 := by
  unfold shutdown
  split
  · exact onward_of_silent (.refl w)
  · have hlog : Onward i w (w.log i.registry.stopAll.1) := by
      refine onward_log_of_no_handler fun call args h => ?_
      obtain ⟨name, hname⟩ := stopped_of_mem_stopChain h
      cases hname
    exact hlog.trans (onward_of_pool rfl rfl fun _ hjob => absurd hjob List.not_mem_nil)

theorem running_shutdown (i : Interpreter) (w : World) :
    (w.shutdown i).2.pool.running = w.pool.running := by
  unfold shutdown
  split <;> rfl

end World

open World

/-! ## Runs -/

/-- The log is clean, and the calls under way are in it. -/
structure InOrder (i : Interpreter) (s : Scene) : Prop where
  sound : s.world.Sound
  clean : s.world.Clean i
  jobs : s.world.JobsLogged
  calls : ∀ p ∈ s.waiting, s.world.Logged p.2

variable {i : Interpreter} {now : Timestamp} {seed : Nat} {s s' : Scene}

theorem InOrder.onward {w : World} (h : InOrder i s) (ho : Onward i s.world w)
    (hjobs : w.JobsLogged) : InOrder i ⟨w, s.waiting⟩ :=
  ⟨ho.sound h.sound, ho.clean h.clean, hjobs, fun p hp => (h.calls p hp).mono ho.logged⟩

theorem InOrder.after {th : Thread} {waiting : List (Thread × Invocation)}
    {run : Called × World} (h : InOrder i s) (hkept : Kept i s.world run)
    (hwaiting : ∀ p ∈ waiting, p ∈ s.waiting) : InOrder i (.after waiting th run) := by
  have hjobs : run.2.JobsLogged := by
    refine h.jobs.keep hkept.onward.logged fun r hr => ?_
    rw [← hkept.running]
    exact hr
  have hcalls : ∀ p ∈ waiting, run.2.Logged p.2 := fun p hp =>
    (h.calls p (hwaiting p hp)).mono hkept.onward.logged
  obtain ⟨called, w⟩ := run
  cases called with
  | blank => exact ⟨hkept.onward.sound h.sound, hkept.onward.clean h.clean, hjobs, hcalls⟩
  | finished r => exact ⟨hkept.onward.sound h.sound, hkept.onward.clean h.clean, hjobs, hcalls⟩
  | waiting inv =>
    refine ⟨hkept.onward.sound h.sound, hkept.onward.clean h.clean, hjobs, fun p hp => ?_⟩
    rcases List.mem_append.1 hp with hp | hp
    · exact hcalls p hp
    · rw [List.mem_singleton.1 hp]
      exact hkept.waiting inv rfl

theorem inOrder_step (h : InOrder i s) (hstep : Step i s s') : InOrder i s' := by
  cases hstep with
  | execute th line => exact h.after (kept_execute h.sound th line) fun _ hp => hp
  | executeAs th key line => exact h.after (kept_executeAs h.sound th key line) fun _ hp => hp
  | invoke th name values => exact h.after (kept_invoke h.sound th name values) fun _ hp => hp
  | @resume before after th inv hwaiting =>
    have hlogged : s.world.Logged inv := h.calls (th, inv) (by rw [hwaiting]; simp)
    exact h.after (kept_runCall hlogged) fun p hp => Scene.mem_waiting hwaiting hp
  | submit th task line =>
    have hquiet := quiet_submit i th task line s.world
    exact h.onward hquiet.onward (h.jobs.keep hquiet.toSilent.logged fun r hr => by
      rw [← hquiet.running]
      exact hr)
  | startNext hstart =>
    obtain ⟨honward, hjobs⟩ := startNext_onward h.sound h.jobs hstart
    exact h.onward honward hjobs
  | advance hr hadvance =>
    obtain ⟨honward, hjobs⟩ := advance_onward hr h.jobs hadvance
    exact h.onward honward hjobs
  | start =>
    have honward := start_onward i s.world
    exact h.onward honward (h.jobs.keep honward.logged fun _ hr => hr)
  | shutdown =>
    have honward := shutdown_onward i s.world
    exact h.onward honward (h.jobs.keep honward.logged fun r hr => by
      rw [← running_shutdown i s.world]
      exact hr)
  | silent hsilent =>
    exact h.onward (onward_of_silent hsilent) (h.jobs.keep hsilent.logged fun r hr => by
      rw [← hsilent.running]
      exact hr)

theorem inOrder_reached (h : Reached i now seed s) : InOrder i s := by
  induction h with
  | start =>
    refine ⟨sound_initial i.settings now seed, fun before call args after he => ?_,
      fun r hr => absurd hr List.not_mem_nil, fun p hp => absurd hp List.not_mem_nil⟩
    cases before <;> cases he
  | step _ hstep ih => exact inOrder_step ih hstep

/-- **No way around the filters.**  In every run, whenever the handler of a command was taken up,
all filters for the command had just been asked, in their order, with the name of the command, the
argument text that the record of the call holds, and the label of its session; and every
registered filter whose scope is empty or holds the command is one of them and said yes.  No
handler is under way that was not taken up so. -/
theorem handlers_run_filtered (i : Interpreter) (now : Timestamp) (seed : Nat) (s : Scene)
    (h : Reached i now seed s) :
    ((∀ p ∈ s.waiting, s.world.Logged p.2) ∧ s.world.JobsLogged) ∧
      ∀ before call args after d, s.world.events = before ++ .invoked call args :: after →
        call.entry? = some d →
          let request : FilterRequest :=
            ⟨d.name, call.rawArgs, (s.world.session call.session).label⟩
          i.registry.command? call.typed = some d ∧ args.command = d.name ∧
            (∀ later outcome, (call.record later outcome).rawArgs = request.rawArgs) ∧
            (∃ earlier, before = earlier ++
              (i.registry.filterChain d.name).map fun e => .filtered e.name request) ∧
            ∀ e ∈ i.registry.entries, ∀ check rejection scope,
              e.handler = .filter check rejection scope → (scope = [] ∨ d.name ∈ scope) →
                e ∈ i.registry.filterChain d.name ∧ check request = .ok true := by
  have hinOrder := inOrder_reached h
  refine ⟨⟨hinOrder.calls, hinOrder.jobs⟩, fun before call args after d hevents hentry => ?_⟩
  have hpassed := hinOrder.clean before call args after hevents
  have hcommand : i.registry.command? call.typed = some d := by
    rw [← hpassed.entry]
    exact hentry
  have hname : i.registry.canonicalName call.typed = d.name := by
    rw [Registry.canonicalName, hcommand]
  have hrequest : s.world.filterRequest i call =
      ⟨d.name, call.rawArgs, (s.world.session call.session).label⟩ := by
    rw [filterRequest, hname]
  obtain ⟨earlier, hbefore⟩ := hpassed.asked
  rw [hrequest, hpassed.command, hname] at hbefore
  have hallowed := hpassed.allowed
  rw [hrequest, Registry.runFilters_allows_iff] at hallowed
  refine ⟨hcommand, hpassed.command.trans hname, fun _ _ => rfl, ⟨earlier, hbefore⟩, ?_⟩
  intro e he check rejection scope hhandler hscope
  exact ⟨(Registry.mem_filterChain_iff i.registry d.name e).2
      ⟨he, (Registry.covers_iff e d.name).2 ⟨check, rejection, scope, hhandler, hscope⟩⟩,
    hallowed e he check rejection scope hhandler hscope⟩

/-- A filter that keeps the command `list` from showing everything. -/
def nothingHidden : Entry :=
  Entry.ofHandler "nothing hidden"
    (.filter (fun request => .ok (request.rawArgs ≠ "all")) "some are hidden" ["list"])

/-- A command that answers nothing and is also called `ls`. -/
def listing : Entry :=
  { Entry.ofHandler "list" (.command fun _ => .done (.answered .null)) with aliases := ["ls"] }

theorem alias_runs_filtered :
    let i : Interpreter :=
      ⟨.default, .ofEntries Strategy.builtin [nothingHidden, listing], .builtin, []⟩
    let s : Scene :=
      .after [] (.caller 0) ((World.initial .default 0 1).execute i (.caller 0) "ls x")
    let request : FilterRequest := ⟨"list", "x", "ThreadId(1)"⟩
    Reached i 0 1 s ∧
      ∃ call args, s.world.events = [.filtered "nothing hidden" request, .invoked call args] ∧
        call.typed = "ls" ∧ call.entry? = some listing ∧ args.command = "list" ∧
        ∀ e ∈ i.registry.entries, ∀ check rejection scope,
          e.handler = .filter check rejection scope → (scope = [] ∨ "list" ∈ scope) →
            check request = .ok true := by
  intro i s request
  have hreached : Reached i 0 1 s := .step .start (.execute _ (.caller 0) "ls x")
  have hevents : s.world.events = [.filtered "nothing hidden" request] ++
      .invoked ⟨0, "ls", some listing, "x", 0⟩ ⟨"list", []⟩ :: [] := rfl
  obtain ⟨-, hall⟩ := handlers_run_filtered i 0 1 s hreached
  obtain ⟨-, hcommand, -, -, hallowed⟩ := hall _ _ _ _ listing hevents rfl
  refine ⟨hreached, _, _, hevents, rfl, rfl, hcommand, ?_⟩
  intro e he check rejection scope hhandler hscope
  exact (hallowed e he check rejection scope hhandler hscope).2

end CommandShell
