import CommandShell.Proofs.Engine.FilterLog
import CommandShell.Proofs.Engine.Handles
/-!
# What ends an interpreter, and what does not

Whether an interpreter was shut down, whether its pool has stopped and which handlers of the stop
ran is a matter of the shutdown alone: nothing else that happens changes it.  Once the pool has
stopped every submission is refused, and a refused submission leaves all tasks as they were.

    w.ending                          the flag, the pool's door and the handlers that ran
    an act that is no shutdown leaves the ending as it was                     (Act.ending)
    a stopped pool refuses every submission                            (submit_of_stopped)
    a refused submission leaves the tasks of all sessions alone        (tasks_of_refused)
-/

namespace CommandShell

/-- The handler of the stop that ran, if one did. -/
def Event.stopped? : Event → Option String
  | .stopped name => some name
  | _ => none

/-- What concerns the end of an interpreter. -/
structure Ending where
  shutDown : Bool
  /-- Whether the pool takes no more jobs. -/
  stopped : Bool
  /-- The handlers of the stop that ran, oldest first. -/
  ran : List String

namespace World

variable {i : Interpreter} {th : Thread} {w w' w₁ : World} {n : Nat} {inv : Invocation}

def ending (w : World) : Ending := ⟨w.shutDown, w.pool.stopped, w.events.filterMap Event.stopped?⟩

theorem ending_log {added : List Event} (h : added.filterMap Event.stopped? = []) :
    (w.log added).ending = w.ending := by
  simp only [ending, log, List.filterMap_append, h, List.append_nil]

theorem ending_bind (w : World) (th : Thread) (key : Option SessionKey) :
    (w.bind th key).ending = w.ending := by
  cases key <;> rfl

theorem ending_locate (w : World) (key : SessionKey) : (w.locate key).2.ending = w.ending := rfl

theorem ending_submit (i : Interpreter) (th : Thread) (task line : String) (w : World) :
    (w.submit i th task line).2.ending = w.ending := by
  unfold submit
  split
  · rfl
  · dsimp only
    split <;> rfl

theorem ending_releaseJob (w : World) (r : Running) (record : Record) :
    (w.releaseJob r record).ending = w.ending := by
  unfold releaseJob
  cases r.previous <;> rfl

theorem ending_answer {r : Request} {reply : r.Reply}
    (h : w.answer i th r = some (reply, w')) : w'.ending = w.ending := by
  cases r with
  | print console text =>
    cases h
    cases console <;> rfl
  | submit task line =>
    cases h
    exact ending_submit i th task line w
  | sleepUntil | pass =>
    obtain ⟨-, h⟩ := Option.ite_none_right_eq_some.1 h
    cases h
    rfl
  | _ =>
    cases h
    rfl

theorem stopped?_runFilters (registry : Registry) (request : FilterRequest) :
    (registry.runFilters request).1.filterMap Event.stopped? = [] := by
  rw [List.filterMap_eq_nil_iff]
  intro event hevent
  obtain ⟨f, -, rfl⟩ := Registry.filtered_of_mem_runChain hevent
  rfl

theorem ending_beginCall (n : Nat) (typed rawArgs : String)
    (arguments : Entry → Except ParseFailure (List Value)) (w : World) :
    (w.beginCall i n typed rawArgs arguments).2.ending = w.ending := by
  obtain ⟨script, taken, hbegin, htaken⟩ := exists_beginCall_eq i n typed rawArgs arguments w
  rw [hbegin]
  refine ending_log ?_
  rw [List.filterMap_append, stopped?_runFilters, List.nil_append]
  rcases htaken with ⟨f, -, rfl⟩ | ⟨args, -, rfl⟩ <;> rfl

theorem ending_beginLine {line : String} {console : Console}
    (h : w.beginLine i n line console = some (inv, w')) : w'.ending = w.ending := by
  unfold beginLine at h
  split at h
  · cases h
  · have hbegin := congrArg Prod.snd (Option.some.inj h)
    dsimp only at hbegin
    rw [← hbegin]
    exact ending_beginCall ..

theorem ending_startNext (h : w.startNext i = some w') : w'.ending = w.ending := by
  obtain ⟨job, queue, invocation, w₁, -, -, hbegun, rfl⟩ := startNext_cases h
  have hbound := ending_bind w (.worker (freeWorker w.pool.running)) (some job.key)
  have hworld : w₁.ending = w.ending := by
    rcases hbegun with ⟨-, -, rfl⟩ | ⟨inv, -, hbegin⟩
    · exact hbound
    · exact (ending_beginLine hbegin).trans hbound
  exact hworld

theorem ending_start (i : Interpreter) (w : World) : (w.start i).2.ending = w.ending := by
  refine ending_log (List.filterMap_eq_nil_iff.2 fun event hevent => ?_)
  obtain ⟨name, rfl⟩ := started_of_mem_startChain hevent
  rfl

end World

open World

/-- Nothing but the shutdown ends an interpreter. -/
theorem Act.ending {i : Interpreter} {s s' : Scene} {deed : Deed} (h : Act i s deed s') :
    s'.world.ending = s.world.ending ∨ s'.world = (s.world.shutdown i).2 := by
  cases h with
  | shutdown => exact Or.inr rfl
  | call h => exact Or.inl ((ending_beginLine h).trans (ending_locate ..))
  | invoke h =>
    have hbegin := congrArg Prod.snd h
    dsimp only at hbegin
    rw [← hbegin]
    exact Or.inl ((ending_beginCall ..).trans (ending_locate ..))
  | request hwaiting hscript h => exact Or.inl (ending_answer h)
  | ask hprint h => exact Or.inl (ending_answer h)
  | proceed hr hinv hscript h =>
    have hanswer := ending_answer h
    exact Or.inl hanswer
  | begin h hrunning => exact Or.inl (ending_startNext h)
  | finish hr hinv hscript => exact Or.inl ((ending_releaseJob ..).trans rfl)
  | release hr hinv => exact Or.inl (ending_releaseJob ..)
  | bind c key => exact Or.inl (ending_bind ..)
  | start => exact Or.inl (ending_start i s.world)
  | close | locate | forget | edit | openGate | passTo | reorder => exact Or.inl rfl

/-! ## Submissions to a stopped pool -/

namespace World

variable {i : Interpreter} {th : Thread} {w w' : World} {task line : String}

/-- Why a line is refused once the pool has stopped. -/
def refusal (line : String) : SubmitError :=
  if Text.allBlank line.toList then .emptyLine else .stopped

theorem submit_of_stopped (i : Interpreter) (th : Thread) (task line : String)
    (h : w.pool.stopped = true) : (w.submit i th task line).1 = .error (refusal line) := by
  unfold submit refusal
  split
  · rfl
  · exact congrArg Prod.fst (if_pos h)

/-- A new session has no tasks, as the number that it gets had none before. -/
theorem tasks_locate (w : World) (key : SessionKey) (n : Nat) :
    ((w.locate key).2.session n).tasks = (w.session n).tasks := by
  unfold locate SessionTable.locate
  cases w.sessions.number? key with
  | some n => rfl
  | none =>
    simp only [session, SessionTable.session]
    rcases Nat.lt_trichotomy n w.sessions.sessions.length with h | rfl | h
    · rw [List.getElem?_append_left h]
    · simp [Session.empty]
    · rw [List.getElem?_eq_none (Nat.le_of_lt h), List.getElem?_eq_none]
      rw [List.length_append, List.length_singleton]
      exact h

/-- A refused submission opens no task and retires none. -/
theorem tasks_of_refused {e : SubmitError} (h : w.submit i th task line = (.error e, w'))
    (n : Nat) : (w'.session n).tasks = (w.session n).tasks := by
  unfold submit at h
  split at h
  · cases h
    rfl
  · dsimp only at h
    split at h
    · cases h
      exact tasks_locate w _ n
    · cases h

end World

end CommandShell
