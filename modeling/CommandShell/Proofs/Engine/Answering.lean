import CommandShell.Engine.Answer
/-!
# What handlers leave alone

A handler acts through its requests.  Whatever it asks for, no history changes, no session goes
away and nothing is logged: records and events are made by those who run the call.

    Silent w w'      nothing was logged, sessions keep their keys, running jobs run on
    Quiet w w'       and no history changed
    an answer is quiet                                                        (quiet_answer)
    running a script is quiet, as far as it gets                              (quiet_run)
-/

namespace CommandShell

namespace World

/-- Numbers of sessions, of those that are known and those that jobs are for, stand for
sessions. -/
structure Sound (w : World) : Prop where
  known : ∀ p ∈ w.sessions.known, p.2 < w.sessions.sessions.length
  queued : ∀ job ∈ w.pool.queue, job.session < w.sessions.sessions.length

/-- Nothing was logged, sessions are there with the keys they had, and the running jobs are as
they were. -/
structure Silent (w w' : World) : Prop where
  events : w'.events = w.events
  sessions : w.sessions.sessions.length ≤ w'.sessions.sessions.length
  key : ∀ n < w.sessions.sessions.length, (w'.session n).key = (w.session n).key
  running : w'.pool.running = w.pool.running
  sound : w.Sound → w'.Sound

/-- Besides, histories are as they were; new sessions are empty. -/
structure Quiet (w w' : World) : Prop extends Silent w w' where
  history : ∀ n, (w'.session n).history = (w.session n).history
  limit : ∀ n, (w'.session n).historyLimit = (w.session n).historyLimit

variable {w w' w'' : World} {n m : Nat} {f : Session → Session}

theorem sound_initial (settings : Settings) (now : Timestamp) (seed : Nat) :
    (initial settings now seed).Sound :=
  ⟨fun _ hp => absurd hp List.not_mem_nil, fun _ hjob => absurd hjob List.not_mem_nil⟩

theorem Silent.refl (w : World) : Silent w w :=
  ⟨rfl, Nat.le_refl _, fun _ _ => rfl, rfl, id⟩

theorem Silent.trans (h : Silent w w') (h' : Silent w' w'') : Silent w w'' where
  events := h'.events.trans h.events
  sessions := Nat.le_trans h.sessions h'.sessions
  key n hn := (h'.key n (Nat.lt_of_lt_of_le hn h.sessions)).trans (h.key n hn)
  running := h'.running.trans h.running
  sound hw := h'.sound (h.sound hw)

theorem Quiet.refl (w : World) : Quiet w w :=
  ⟨.refl w, fun _ => rfl, fun _ => rfl⟩

theorem Quiet.trans (h : Quiet w w') (h' : Quiet w' w'') : Quiet w w'' :=
  ⟨h.toSilent.trans h'.toSilent, fun n => (h'.history n).trans (h.history n),
    fun n => (h'.limit n).trans (h.limit n)⟩

theorem quiet_of_same (hs : w'.sessions = w.sessions) (hp : w'.pool = w.pool)
    (he : w'.events = w.events) : Quiet w w' := by
  have hsession (n : Nat) : w'.session n = w.session n := by rw [session, session, hs]
  refine ⟨⟨he, ?_, fun n _ => by rw [hsession], by rw [hp], fun h => ⟨?_, ?_⟩⟩,
    fun n => by rw [hsession], fun n => by rw [hsession]⟩
  · exact Nat.le_of_eq (by rw [hs])
  · rw [hs]
    exact h.known
  · rw [hs, hp]
    exact h.queued

theorem quiet_bind (w : World) (th : Thread) (key : Option SessionKey) :
    Quiet w (w.bind th key) := by
  cases key with
  | none => exact quiet_of_same rfl rfl rfl
  | some key => exact quiet_of_same rfl rfl rfl

/-! ## Sessions -/

theorem length_modifySession (w : World) (n : Nat) (f : Session → Session) :
    (w.modifySession n f).sessions.sessions.length = w.sessions.sessions.length :=
  List.length_modify f _ n

theorem session_modifySession_self (h : n < w.sessions.sessions.length) (f : Session → Session) :
    (w.modifySession n f).session n = f (w.session n) := by
  simp [session, modifySession, SessionTable.session, SessionTable.modify,
    List.getElem?_eq_getElem h]

theorem session_modifySession_of_ne (h : m ≠ n) (w : World) (f : Session → Session) :
    (w.modifySession n f).session m = w.session m := by
  simp [session, modifySession, SessionTable.session, SessionTable.modify, Ne.symm h]

theorem session_modifySession_cases (w : World) (n m : Nat) (f : Session → Session) :
    (w.modifySession n f).session m = w.session m ∨
      (w.modifySession n f).session m = f (w.session m) := by
  by_cases hm : m = n
  · subst hm
    by_cases hlt : m < w.sessions.sessions.length
    · exact Or.inr (session_modifySession_self hlt f)
    · have hnone : w.sessions.sessions[m]? = none := List.getElem?_eq_none (Nat.le_of_not_lt hlt)
      exact Or.inl (by
        simp [session, modifySession, SessionTable.session, SessionTable.modify, hnone])
  · exact Or.inl (session_modifySession_of_ne hm w f)

theorem silent_modifySession (w : World) (n : Nat) (hf : ∀ s, (f s).key = s.key) :
    Silent w (w.modifySession n f) where
  events := rfl
  sessions := Nat.le_of_eq (length_modifySession w n f).symm
  key m _ := by
    rcases session_modifySession_cases w n m f with h | h
    · rw [h]
    · rw [h, hf]
  running := rfl
  sound h := by
    refine ⟨?_, ?_⟩
    · rw [length_modifySession]
      exact h.known
    · rw [length_modifySession]
      exact h.queued

theorem quiet_modifySession (w : World) (n : Nat)
    (hf : ∀ s, (f s).key = s.key ∧ (f s).history = s.history ∧
      (f s).historyLimit = s.historyLimit) : Quiet w (w.modifySession n f) := by
  refine ⟨silent_modifySession w n fun s => (hf s).1, fun m => ?_, fun m => ?_⟩
  · rcases session_modifySession_cases w n m f with h | h
    · rw [h]
    · rw [h, (hf _).2.1]
  · rcases session_modifySession_cases w n m f with h | h
    · rw [h]
    · rw [h, (hf _).2.2]

theorem quiet_locate (w : World) (key : SessionKey) : Quiet w (w.locate key).2 := by
  unfold locate SessionTable.locate
  cases w.sessions.number? key with
  | some n => exact Quiet.refl w
  | none =>
    have hlen : (w.sessions.sessions ++ [Session.empty key w.sessions.historyLimit]).length =
        w.sessions.sessions.length + 1 := List.length_append
    -- The new session is as empty as the one that its number stood for before.
    have hnew (n : Nat) (s : Session) :
        ((w.sessions.sessions ++ [Session.empty key w.sessions.historyLimit])[n]?).getD s =
            (w.sessions.sessions[n]?).getD s ∨
          w.sessions.sessions[n]? = none ∧
          ((w.sessions.sessions ++ [Session.empty key w.sessions.historyLimit])[n]?).getD s =
            Session.empty key w.sessions.historyLimit := by
      rcases Nat.lt_trichotomy n w.sessions.sessions.length with h | h | h
      · exact Or.inl (by rw [List.getElem?_append_left h])
      · subst h
        exact Or.inr (by simp)
      · exact Or.inl (by
          rw [List.getElem?_eq_none (by omega), List.getElem?_eq_none (Nat.le_of_lt h)])
    refine ⟨⟨rfl, by simp, fun n hn => ?_, rfl, fun h => ⟨fun p hp => ?_, fun job hjob => ?_⟩⟩,
      fun n => ?_, fun n => ?_⟩
    · simp [session, SessionTable.session, List.getElem?_append_left hn]
    · dsimp only
      rw [hlen]
      rcases List.mem_append.1 hp with hp | hp
      · exact Nat.lt_succ_of_lt (h.known p hp)
      · rw [List.mem_singleton.1 hp]
        exact Nat.lt_succ_self _
    · dsimp only
      rw [hlen]
      exact Nat.lt_succ_of_lt (h.queued job hjob)
    · rcases hnew n (.empty (.thread 0) w.sessions.historyLimit) with h | ⟨hnone, h⟩
      · exact congrArg Session.history h
      · refine (congrArg Session.history h).trans ?_
        simp [session, SessionTable.session, hnone, Session.empty]
    · rcases hnew n (.empty (.thread 0) w.sessions.historyLimit) with h | ⟨hnone, h⟩
      · exact congrArg Session.historyLimit h
      · refine (congrArg Session.historyLimit h).trans ?_
        simp [session, SessionTable.session, hnone, Session.empty]

/-- The session of a key is there once it was asked for. -/
theorem locate_lt (h : w.Sound) (key : SessionKey) :
    (w.locate key).1 < (w.locate key).2.sessions.sessions.length := by
  unfold locate SessionTable.locate
  cases hnumber : w.sessions.number? key with
  | some n => exact h.known (key, n) (Assoc.mem_of_get? hnumber)
  | none => simp

theorem quiet_current (w : World) (th : Thread) : Quiet w (w.current th).2 :=
  quiet_locate w _

/-! ## Requests -/

theorem quiet_print (w : World) (console : Console) (text : String) :
    Quiet w (w.print console text) := by
  cases console with
  | terminal => exact quiet_of_same rfl rfl rfl
  | capture n generation => exact quiet_modifySession w n fun _ => ⟨rfl, rfl, rfl⟩

theorem quiet_enqueue {job : Job} (h : Quiet w w')
    (hjob : w.Sound → job.session < w'.sessions.sessions.length) :
    Quiet w { w' with pool := { w'.pool with queue := w'.pool.queue ++ [job] } } := by
  refine ⟨⟨h.events, h.sessions, h.key, h.running, fun hw => ⟨(h.sound hw).known, ?_⟩⟩,
    h.history, h.limit⟩
  intro other hother
  rcases List.mem_append.1 hother with hother | hother
  · exact (h.sound hw).queued other hother
  · rw [List.mem_singleton.1 hother]
    exact hjob hw

theorem quiet_submit (i : Interpreter) (th : Thread) (task line : String) (w : World) :
    Quiet w (w.submit i th task line).2 := by
  unfold submit
  split
  · exact Quiet.refl w
  · have hlocate := quiet_locate w (w.currentKey th)
    dsimp only
    split
    · exact hlocate
    · refine quiet_enqueue (hlocate.trans (quiet_modifySession _ _ fun _ => ⟨rfl, rfl, rfl⟩)) ?_
      intro h
      rw [length_modifySession]
      exact locate_lt h _

theorem quiet_answer {i : Interpreter} {th : Thread} {r : Request} {reply : r.Reply}
    (h : w.answer i th r = some (reply, w')) : Quiet w w' := by
  cases r with
  | print console text =>
    cases h
    exact quiet_print w console text
  | submit task line =>
    cases h
    exact quiet_submit i th task line w
  | setVariable | clearTasks =>
    cases h
    exact (quiet_current w th).trans (quiet_modifySession _ _ fun _ => ⟨rfl, rfl, rfl⟩)
  | getVariable | vars | history | tasks | output =>
    cases h
    exact quiet_current w th
  | sessionLabel | commands | clock =>
    cases h
    exact Quiet.refl w
  | exit =>
    cases h
    exact quiet_of_same rfl rfl rfl
  | sleepUntil | pass =>
    obtain ⟨-, h⟩ := Option.ite_none_right_eq_some.1 h
    cases h
    exact Quiet.refl w

theorem quiet_run {α : Type} (i : Interpreter) (th : Thread) (s : Script α) (w : World) :
    Quiet w (s.run i th w).2 := by
  induction s generalizing w with
  | done a => exact Quiet.refl w
  | request r next ih =>
    rw [Script.run]
    cases h : w.answer i th r with
    | none => exact Quiet.refl w
    | some answered =>
      obtain ⟨reply, w'⟩ := answered
      exact (quiet_answer h).trans (ih reply w')

end World

end CommandShell
