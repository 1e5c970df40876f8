import CommandShell.Proofs.Engine.Interleaving
import CommandShell.Proofs.Engine.Ownership
/-!
# What leaves the sessions of threads alone

Which session a thread acts in is a matter of two things: the key that it is bound to, and the
number of that key.  Opening and closing scopes changes the first, forgetting a key the second, and
nothing else does: not what handlers ask for, not calls, not background jobs.

    Steady th w w'           th is bound as before, no number of a key has changed
    Along th w worlds w'     so it is from w by some worlds to w'
    answers are steady, and so are calls from one answer to the next
                                                            (steady_answer, along_runCall)
    the jobs that workers run are steady for callers                       (steady_settle)
    the number of a key always stands for a session of that key            (keyed_unfolds)
-/

namespace CommandShell

theorem SessionEdit.key_apply (e : SessionEdit) (s : Session) : (e.apply s).key = s.key := by
  cases e <;> rfl

/-- The worlds that a script comes by while its requests are answered. -/
def Script.worlds {α : Type} (i : Interpreter) (th : Thread) : Script α → World → List World
  | .done _, _ => []
  | .request r next, w =>
    match w.answer i th r with
    | some (reply, w) => w :: (next reply).worlds i th w
    | none => []

namespace World

/-- Every key has the number that it had. -/
def Keeps (w w' : World) : Prop :=
  ∀ key n, w.sessions.number? key = some n → w'.sessions.number? key = some n

/-- A thread is bound to what it was bound to, and keys have the numbers that they had. -/
structure Steady (th : Thread) (w w' : World) : Prop where
  bound : Assoc.get? th w'.bound = Assoc.get? th w.bound
  number : Keeps w w'
  keyed : w.Keyed → w'.Keyed

variable {i : Interpreter} {th asker : Thread} {w w' w'' next after : World}
  {worlds : List World} {n : Nat} {f : Session → Session}

theorem Keeps.refl (w : World) : Keeps w w := fun _ _ hn => hn

theorem Keeps.trans (h : Keeps w w') (h' : Keeps w' w'') : Keeps w w'' :=
  fun key n hn => h' key n (h key n hn)

theorem keeps_of_same (hs : w'.sessions = w.sessions) : Keeps w w' := by
  intro key n hn
  rw [hs]
  exact hn

theorem keeps_locate (w : World) (key : SessionKey) : Keeps w (w.locate key).2 :=
  fun _ _ hn => number?_locate_of_some hn key

theorem sessions_bind (w : World) (th : Thread) (key : Option SessionKey) :
    (w.bind th key).sessions = w.sessions := by
  cases key <;> rfl

theorem Steady.refl (th : Thread) (w : World) : Steady th w w := ⟨rfl, Keeps.refl w, id⟩

theorem Steady.trans (h : Steady th w w') (h' : Steady th w' w'') : Steady th w w'' where
  bound := h'.bound.trans h.bound
  number := h.number.trans h'.number
  keyed hw := h'.keyed (h.keyed hw)

theorem steady_of_same (hs : w'.sessions = w.sessions) (hb : w'.bound = w.bound) :
    Steady th w w' where
  bound := by rw [hb]
  number := keeps_of_same hs
  keyed hw := hw.same hs

theorem steady_log (w : World) (added : List Event) : Steady th w (w.log added) :=
  steady_of_same rfl rfl

theorem steady_locate (w : World) (key : SessionKey) : Steady th w (w.locate key).2 where
  bound := rfl
  number := keeps_locate w key
  keyed hw := hw.locate key

theorem steady_modifySession (w : World) (n : Nat) (hf : ∀ s, (f s).key = s.key) :
    Steady th w (w.modifySession n f) where
  bound := rfl
  number := Keeps.refl w
  keyed hw := hw.modifySession n hf

/-- To bind another thread is of no matter. -/
theorem steady_bind (w : World) (h : th ≠ asker) (key : Option SessionKey) :
    Steady th w (w.bind asker key) where
  bound := by
    cases key with
    | none => exact Assoc.get?_erase_of_ne h w.bound
    | some key => exact Assoc.get?_put_of_ne h key w.bound
  number := keeps_of_same (sessions_bind w asker key)
  keyed hw := hw.same (sessions_bind w asker key)

/-! ## Requests -/

theorem steady_current (w : World) (asker : Thread) : Steady th w (w.current asker).2 :=
  steady_locate w _

theorem steady_print (w : World) (console : Console) (text : String) :
    Steady th w (w.print console text) := by
  cases console with
  | terminal => exact steady_of_same rfl rfl
  | capture n generation => exact steady_modifySession w n fun _ => rfl

theorem steady_submit (i : Interpreter) (asker : Thread) (task line : String) (w : World) :
    Steady th w (w.submit i asker task line).2 := by
  unfold submit
  split
  · exact Steady.refl th w
  · dsimp only
    split
    · exact steady_locate w _
    · refine ((steady_locate w (w.currentKey asker)).trans
        (steady_modifySession _ _ ?_)).trans (steady_of_same rfl rfl)
      exact fun _ => rfl

theorem steady_answer {r : Request} {reply : r.Reply} (h : w.answer i asker r = some (reply, w')) :
    Steady th w w' := by
  cases r with
  | print console text =>
    cases h
    exact steady_print w console text
  | submit task line =>
    cases h
    exact steady_submit i asker task line w
  | setVariable | clearTasks =>
    cases h
    exact (steady_current w asker).trans (steady_modifySession _ _ fun _ => rfl)
  | getVariable | vars | history | tasks | output =>
    cases h
    exact steady_current w asker
  | sessionLabel | commands | clock =>
    cases h
    exact Steady.refl th w
  | exit =>
    cases h
    exact steady_of_same rfl rfl
  | sleepUntil | pass =>
    obtain ⟨-, h⟩ := Option.ite_none_right_eq_some.1 h
    cases h
    exact Steady.refl th w

/-! ## Calls -/

theorem steady_finishCall (inv : Invocation) (outcome : Except Failure Json) (w : World) :
    Steady th w (w.finishCall inv outcome).2 :=
  steady_modifySession w inv.session fun _ => rfl

theorem steady_beginCall {typed rawArgs : String}
    {arguments : Entry → Except ParseFailure (List Value)} {inv : Invocation}
    (h : w.beginCall i n typed rawArgs arguments = (inv, w')) : Steady th w w' := by
  obtain ⟨-, added, rfl⟩ := exists_log_of_beginCall h
  exact steady_log w added

theorem steady_beginLine {line : String} {console : Console} {inv : Invocation}
    (h : w.beginLine i n line console = some (inv, w')) : Steady th w w' := by
  obtain ⟨-, chance, added, rfl⟩ := exists_log_of_beginLine h
  exact steady_of_same rfl rfl

/-- From a world by some others to the last, and each step is steady. -/
inductive Along (th : Thread) : World → List World → World → Prop
  | stop {w after : World} (h : Steady th w after) : Along th w [] after
  | pass {w next after : World} {worlds : List World} (h : Steady th w next)
      (rest : Along th next worlds after) : Along th w (next :: worlds) after

theorem Along.steady (h : Along th w worlds after) : Steady th w after := by
  induction h with
  | stop h => exact h
  | pass h _ ih => exact h.trans ih

theorem Along.later (h : Along th w worlds next) (hsteady : Steady th next after) :
    Along th w worlds after := by
  induction h with
  | stop h => exact .stop (h.trans hsteady)
  | pass h _ ih => exact .pass h (ih hsteady)

theorem along_run {α : Type} (i : Interpreter) (th : Thread) (s : Script α) (w : World) :
    Along th w (s.worlds i th w) (s.run i th w).2 := by
  induction s generalizing w with
  | done a => exact .stop (Steady.refl th w)
  | request r next ih =>
    rw [Script.worlds, Script.run]
    cases h : w.answer i th r with
    | none => exact .stop (Steady.refl th w)
    | some answered =>
      obtain ⟨reply, w'⟩ := answered
      exact .pass (steady_answer h) (ih reply w')

theorem along_runCall (i : Interpreter) (th : Thread) (inv : Invocation) (w : World) :
    Along th w (inv.script.worlds i th w) (w.runCall i th inv).2 := by
  have hrun := along_run i th inv.script w
  unfold runCall
  cases hscript : inv.script.run i th w with
  | mk progress w₁ =>
    rw [hscript] at hrun
    cases progress with
    | finished outcome => exact hrun.later (steady_finishCall inv outcome w₁)
    | waiting rest => exact hrun

/-! ## Others -/

theorem steady_openSession (h : th ≠ asker) (w : World) (name : String) :
    Steady th w (w.openSession asker name).2 :=
  (steady_locate w (.named name)).trans (steady_bind _ h (some (.named name)))

theorem steady_dispose {g : Guard} (h : th ≠ g.thread) (w : World) :
    Steady th w (w.dispose g) := by
  have hreset : Steady th w (w.modifySession g.session Session.reset) :=
    steady_modifySession w g.session fun _ => rfl
  exact hreset.trans (steady_bind _ h g.previous)

theorem steady_startNext {c : Nat} (h : w.startNext i = some w') :
    Steady (.caller c) w w' := by
  obtain ⟨job, queue, invocation, w₁, -, -, hbegin, rfl⟩ := startNext_cases h
  have hne : Thread.caller c ≠ .worker (freeWorker w.pool.running) := by simp
  have hbound := steady_bind w hne (some job.key)
  rcases hbegin with ⟨-, -, rfl⟩ | ⟨inv, -, hbegin⟩
  · exact hbound.trans (steady_of_same rfl rfl)
  · exact (hbound.trans (steady_beginLine hbegin)).trans (steady_of_same rfl rfl)

theorem steady_releaseJob (c : Nat) (r : Running) (record : Record) (w : World) :
    Steady (.caller c) w (w.releaseJob r record) := by
  have hne : Thread.caller c ≠ .worker r.worker := by simp
  have hcomplete : Steady (.caller c) w (w.modifySession r.job.session fun s =>
      { s with tasks := s.tasks.complete r.job.generation record w.now }) :=
    steady_modifySession w r.job.session fun _ => rfl
  exact (hcomplete.trans (steady_bind _ hne r.previous)).trans (steady_of_same rfl rfl)

theorem steady_finishJob (c : Nat) (r : Running) (inv : Invocation)
    (outcome : Except Failure Json) (w : World) :
    Steady (.caller c) w (w.finishJob r inv outcome) :=
  (steady_finishCall inv outcome w).trans (steady_releaseJob c r _ _)

theorem steady_advance {c : Nat} {r : Running} (h : w.advance i r = some w') :
    Steady (.caller c) w w' := by
  rcases advance_cases h with ⟨-, rfl⟩ | ⟨inv, outcome, -, -, rfl⟩ |
    ⟨inv, request, next, reply, w₁, -, -, hanswer, rfl⟩
  · exact steady_releaseJob c r _ w
  · exact steady_finishJob c r inv outcome w
  · exact (steady_answer hanswer).trans (steady_of_same rfl rfl)

/-- Whatever the background jobs come to, callers act where they acted. -/
theorem steady_settle (c : Nat) (i : Interpreter) (fuel : Nat) (w : World) :
    Steady (.caller c) w (w.settle i fuel) := by
  induction fuel generalizing w with
  | zero => exact Steady.refl _ w
  | succ fuel ih =>
    rw [settle]
    cases hstep : w.step i with
    | none => exact Steady.refl _ w
    | some next =>
      refine Steady.trans ?_ (ih next)
      unfold step at hstep
      rcases Option.or_eq_some_iff.1 hstep with hstart | ⟨-, hadvance⟩
      · exact steady_startNext hstart
      · obtain ⟨r, -, hr⟩ := List.exists_of_findSome?_eq_some hadvance
        exact steady_advance hr

/-! ## Every world that comes about -/

theorem Keyed.forget (hw : w.Keyed) (key : SessionKey) :
    Keyed { w with sessions := w.sessions.forget key } := by
  intro other n hn
  have hother : Assoc.get? other (Assoc.erase key w.sessions.known) = some n := hn
  by_cases hne : other = key
  · rw [hne, Assoc.get?_erase_self] at hother
    cases hother
  · rw [Assoc.get?_erase_of_ne hne] at hother
    exact hw other n hother

end World

open World

variable {i : Interpreter} {s s' : Scene} {deed : Deed} {run : List Moment}

theorem Act.keyed (hact : Act i s deed s') (hw : s.world.Keyed) : s'.world.Keyed := by
  cases hact with
  | call h =>
    have hcall : Steady (.caller 0) s.world _ := (steady_current _ _).trans (steady_beginLine h)
    exact hcall.keyed hw
  | invoke h =>
    have hcall : Steady (.caller 0) s.world _ := (steady_current _ _).trans (steady_beginCall h)
    exact hcall.keyed hw
  | request _ _ h | ask _ h =>
    have hanswer : Steady (.caller 0) s.world _ := steady_answer h
    exact hanswer.keyed hw
  | close => exact hw.modifySession _ fun _ => rfl
  | begin h =>
    have hstart : Steady (.caller 0) s.world _ := steady_startNext h
    exact hstart.keyed hw
  | proceed _ _ _ h =>
    have hanswer : Steady (.caller 0) s.world _ := steady_answer h
    exact (hanswer.keyed hw).same rfl
  | finish => exact (steady_finishJob 0 _ _ _ s.world).keyed hw
  | release => exact (steady_releaseJob 0 _ _ s.world).keyed hw
  | bind c key => exact hw.same (sessions_bind s.world (.caller c) key)
  | locate key => exact hw.locate key
  | forget key => exact hw.forget key
  | edit n e => exact hw.modifySession n e.key_apply
  | openGate | passTo | reorder | start => exact hw.same rfl
  | shutdown =>
    unfold World.shutdown
    split
    · exact hw
    · exact hw.same rfl

/-- **Whatever comes about, each key that is known has a session of its own.** -/
theorem keyed_unfolds {now : Timestamp} {seed : Nat} (h : Unfolds i (.initial i now seed) run s) :
    s.world.Keyed := by
  induction h with
  | none => exact keyed_initial i.settings now seed
  | act _ hact ih => exact hact.keyed ih

end CommandShell
