import CommandShell.Proofs.Engine.Determined
import CommandShell.Proofs.Session.Alone
/-!
# The session of a key

Whatever is done under a key is done in the session of that key: it becomes what the request, the
script, the call or the line makes of it by itself, and the session of every other key stays as it
is.

    own w key               the session of a key; an empty one if it was never asked for
    Turned key s w w'       the session of key became s, and no other changed
    an answer, a script, a call and a line turn the session of the thread that makes them
                            (answer_own, run_own, runCall_own, execute_own, invoke_own)
-/

namespace CommandShell

open CommandShell.Text

namespace World

/-- What the requests of a session are answered from besides the session. -/
def around (w : World) : Around := ⟨w.now, w.pool.stopped, w.gates⟩

/-- The session of a key; one that was never asked for is empty. -/
def own (w : World) (key : SessionKey) : Session :=
  ((w.sessions.number? key).map w.session).getD (.empty key w.sessions.historyLimit)

/-- The number of a key stands for a session with that key. -/
def Keyed (w : World) : Prop :=
  ∀ key n, w.sessions.number? key = some n →
    n < w.sessions.sessions.length ∧ (w.session n).key = key

/-- The session of a key has become `s`; those of other keys are as they were, and no number has
changed. -/
structure Turned (key : SessionKey) (s : Session) (w w' : World) : Prop where
  keyed : w'.Keyed
  self : w'.own key = s
  others : ∀ other, other ≠ key → w'.own other = w.own other
  number : ∀ other n, w.sessions.number? other = some n → w'.sessions.number? other = some n
  around : w'.around = w.around

section

variable {w w' w'' : World} {key : SessionKey} {s t : Session} {n : Nat} {f : Session → Session}

theorem keyed_initial (settings : Settings) (now : Timestamp) (seed : Nat) :
    (initial settings now seed).Keyed := by
  intro key n h
  cases h

theorem Keyed.same (hw : w.Keyed) (hs : w'.sessions = w.sessions) : w'.Keyed := by
  intro key n hn
  rw [hs] at hn ⊢
  obtain ⟨hlt, hkey⟩ := hw key n hn
  refine ⟨hlt, ?_⟩
  rw [session, hs]
  exact hkey

theorem own_of_number (h : w.sessions.number? key = some n) : w.own key = w.session n := by
  rw [own, h]
  rfl

theorem Keyed.key_own (hw : w.Keyed) (key : SessionKey) : (w.own key).key = key := by
  cases h : w.sessions.number? key with
  | none =>
    rw [own, h]
    rfl
  | some n =>
    rw [own_of_number h]
    exact (hw key n h).2

theorem Turned.trans (h : Turned key s w w') (h' : Turned key t w' w'') : Turned key t w w'' where
  keyed := h'.keyed
  self := h'.self
  others other hne := (h'.others other hne).trans (h.others other hne)
  number other n hn := h'.number other n (h.number other n hn)
  around := h'.around.trans h.around

/-- What is no matter of sessions turns every session to what it was. -/
theorem turned_of_same (key : SessionKey) (hw : w.Keyed) (hs : w'.sessions = w.sessions)
    (ha : w'.around = w.around) : Turned key (w.own key) w w' := by
  have hown (other : SessionKey) : w'.own other = w.own other := by
    unfold own session
    rw [hs]
  exact ⟨hw.same hs, hown key, fun other _ => hown other,
    fun other n hn => by rw [hs]; exact hn, ha⟩

theorem Turned.same (h : Turned key s w w') (hs : w''.sessions = w'.sessions)
    (ha : w''.around = w'.around) : Turned key s w w'' := by
  have hsame := turned_of_same key h.keyed hs ha
  rw [h.self] at hsame
  exact h.trans hsame

theorem locate_of_new (h : w.sessions.number? key = none) :
    w.locate key = (w.sessions.sessions.length,
      { w with sessions := { w.sessions with
        sessions := w.sessions.sessions ++ [.empty key w.sessions.historyLimit]
        known := w.sessions.known ++ [(key, w.sessions.sessions.length)] } }) := by
  simp only [locate, SessionTable.locate, h]

/-- A new session comes behind all others. -/
theorem number?_locate_of_new (h : w.sessions.number? key = none) (other : SessionKey) :
    (w.locate key).2.sessions.number? other = (w.sessions.number? other).or
      (if key = other then some w.sessions.sessions.length else none) := by
  rw [locate_of_new h]
  exact Assoc.get?_append other _ _

/-- A key that has a number keeps it. -/
theorem number?_locate_of_some {other : SessionKey} (h : w.sessions.number? other = some n)
    (key : SessionKey) : (w.locate key).2.sessions.number? other = some n := by
  cases hnew : w.sessions.number? key with
  | some m =>
    rw [locate_of_number hnew]
    exact h
  | none => rw [number?_locate_of_new hnew, h, Option.some_or]

theorem session_locate_of_lt (h : w.sessions.number? key = none)
    (hn : n < w.sessions.sessions.length) : (w.locate key).2.session n = w.session n := by
  rw [locate_of_new h]
  simp only [session, SessionTable.session, List.getElem?_append_left hn]

theorem session_locate_of_new (h : w.sessions.number? key = none) :
    (w.locate key).2.session w.sessions.sessions.length = .empty key w.sessions.historyLimit := by
  rw [locate_of_new h]
  simp [session, SessionTable.session]

theorem Keyed.locate (hw : w.Keyed) (key : SessionKey) : (w.locate key).2.Keyed := by
  cases hnew : w.sessions.number? key with
  | some n =>
    rw [locate_of_number hnew]
    exact hw
  | none =>
    intro other m hm
    have hlen : (w.locate key).2.sessions.sessions.length = w.sessions.sessions.length + 1 := by
      rw [locate_of_new hnew]
      exact List.length_append
    rw [number?_locate_of_new hnew] at hm
    rcases Option.or_eq_some_iff.1 hm with hold | ⟨-, hm⟩
    · obtain ⟨hlt, hkey⟩ := hw other m hold
      exact ⟨by omega, by rw [session_locate_of_lt hnew hlt, hkey]⟩
    · obtain ⟨hkey, hm⟩ := Option.ite_none_right_eq_some.1 hm
      obtain rfl := Option.some.inj hm
      exact ⟨by omega, by rw [session_locate_of_new hnew, ← hkey]; rfl⟩

theorem own_locate (hw : w.Keyed) (key other : SessionKey) :
    (w.locate key).2.own other = w.own other := by
  cases hnew : w.sessions.number? key with
  | some n => rw [locate_of_number hnew]
  | none =>
    have hnumber := number?_locate_of_new hnew other
    cases hother : w.sessions.number? other with
    | some m =>
      rw [hother, Option.some_or] at hnumber
      rw [own_of_number hnumber, session_locate_of_lt hnew (hw other m hother).1,
        own_of_number hother]
    | none =>
      rw [hother, Option.none_or] at hnumber
      rw [own, own, hnumber, hother]
      by_cases hkey : key = other
      · subst hkey
        rw [if_pos rfl, Option.map_some, Option.getD_some, session_locate_of_new hnew]
        rfl
      · rw [if_neg hkey, locate_of_new hnew]
        rfl

/-- Asking for the session of a key changes no session. -/
theorem turned_locate (hw : w.Keyed) (key other : SessionKey) :
    Turned other (w.own other) w (w.locate key).2 where
  keyed := hw.locate key
  self := own_locate hw key other
  others k _ := own_locate hw key k
  number _ _ hm := number?_locate_of_some hm key
  around := rfl

theorem Keyed.modifySession (hw : w.Keyed) (n : Nat) (hf : ∀ s, (f s).key = s.key) :
    (w.modifySession n f).Keyed := by
  intro k m hm
  obtain ⟨hlt, hkey⟩ := hw k m hm
  rw [length_modifySession]
  refine ⟨hlt, ?_⟩
  rcases session_modifySession_cases w n m f with h | h
  · rw [h, hkey]
  · rw [h, hf, hkey]

/-- Changing the session with the number of a key turns the session of that key. -/
theorem turned_modifySession (hw : w.Keyed) (hn : w.sessions.number? key = some n)
    (hf : ∀ s, (f s).key = s.key) : Turned key (f (w.own key)) w (w.modifySession n f) := by
  have hnumber (k : SessionKey) :
      (w.modifySession n f).sessions.number? k = w.sessions.number? k := rfl
  refine ⟨hw.modifySession n hf, ?_, ?_, fun k m hm => hm, rfl⟩
  · rw [own_of_number (hnumber key ▸ hn), session_modifySession_self (hw key n hn).1,
      own_of_number hn]
  · intro other hne
    cases hother : w.sessions.number? other with
    | none =>
      rw [own, own, hnumber, hother]
      rfl
    | some m =>
      have hm : m ≠ n := by
        rintro rfl
        exact hne ((hw other m hother).2.symm.trans (hw key m hn).2)
      rw [own_of_number (hnumber other ▸ hother), own_of_number hother,
        session_modifySession_of_ne hm]

/-- So does asking for the session of a key and changing it. -/
theorem turned_change_of_key (hw : w.Keyed) (key : SessionKey) (hf : ∀ s, (f s).key = s.key) :
    Turned key (f (w.own key)) w ((w.locate key).2.modifySession (w.locate key).1 f) := by
  have hlocate := turned_locate hw key key
  have hchange := turned_modifySession hlocate.keyed (number?_locate w key) hf
  rw [hlocate.self] at hchange
  exact hlocate.trans hchange

end

/-! ## Requests -/

section

variable {w w' : World} {i : Interpreter} {th : Thread} {key : SessionKey} {f : Session → Session}

theorem bound_answer {r : Request} {reply : r.Reply} (h : w.answer i th r = some (reply, w')) :
    w'.bound = w.bound := by
  rcases answer_cases h with ⟨-, -, -, hbound, -⟩ | ⟨n, g, text, -, rfl⟩ | ⟨job, -, hsubmits⟩
  · exact hbound
  · rfl
  · exact hsubmits.bound

/-- The session in which a thread acts is that of its key. -/
theorem session_current (hw : w.Keyed) (hkey : w.currentKey th = key) :
    (w.current th).2.session (w.current th).1 = w.own key := by
  rw [current, hkey, ← own_of_number (number?_locate w key)]
  exact (turned_locate hw key key).self

theorem turned_current (hw : w.Keyed) (hkey : w.currentKey th = key) :
    Turned key (w.own key) w (w.current th).2 := by
  rw [current, hkey]
  exact turned_locate hw key key

theorem number?_current (hkey : w.currentKey th = key) :
    (w.current th).2.sessions.number? key = some (w.current th).1 := by
  rw [current, hkey]
  exact number?_locate w key

theorem turned_change (hw : w.Keyed) (hkey : w.currentKey th = key)
    (hf : ∀ s, (f s).key = s.key) :
    Turned key (f (w.own key)) w ((w.current th).2.modifySession (w.current th).1 f) := by
  rw [current, hkey]
  exact turned_change_of_key hw key hf

/-- A request is answered from the session of the thread, and turns no other. -/
def Answers (i : Interpreter) (th : Thread) (key : SessionKey) (w : World) (r : Request) : Prop :=
  (w.answer i th r = none ∧ (w.own key).answer i w.around r = none) ∨
    ∃ reply w' s, w.answer i th r = some (reply, w') ∧
      (w.own key).answer i w.around r = some (reply, s) ∧ Turned key s w w'

/-- A request that only looks at the session. -/
theorem answers_of_look {r : Request} (hw : w.Keyed) (hkey : w.currentKey th = key)
    (reply : Session → r.Reply)
    (h : w.answer i th r =
      some (reply ((w.current th).2.session (w.current th).1), (w.current th).2))
    (hown : (w.own key).answer i w.around r = some (reply (w.own key), w.own key)) :
    Answers i th key w r := by
  rw [session_current hw hkey] at h
  exact Or.inr ⟨_, _, _, h, hown, turned_current hw hkey⟩

/-- A request that changes the session, in a way that may depend on what the session is. -/
theorem answers_of_change {r : Request} (hw : w.Keyed) (hkey : w.currentKey th = key)
    (reply : Session → r.Reply) (f : Session → Session → Session)
    (hf : ∀ found s, (f found s).key = s.key)
    (h : w.answer i th r =
      some (reply ((w.current th).2.session (w.current th).1),
        (w.current th).2.modifySession (w.current th).1
          (f ((w.current th).2.session (w.current th).1))))
    (hown : (w.own key).answer i w.around r = some (reply (w.own key), f (w.own key) (w.own key))) :
    Answers i th key w r := by
  rw [session_current hw hkey] at h
  exact Or.inr ⟨_, _, _, h, hown, turned_change hw hkey (hf (w.own key))⟩

/-- A request that is no matter of the session. -/
theorem answers_of_same {r : Request} {reply : r.Reply} (hw : w.Keyed) (w' : World)
    (hs : w'.sessions = w.sessions) (ha : w'.around = w.around)
    (h : w.answer i th r = some (reply, w'))
    (hown : (w.own key).answer i w.around r = some (reply, w.own key)) : Answers i th key w r :=
  Or.inr ⟨reply, w', _, h, hown, turned_of_same key hw hs ha⟩

theorem submit_own (hw : w.Keyed) (hkey : w.currentKey th = key) (task line : String) :
    Answers i th key w (.submit task line) := by
  cases hblank : allBlank line.toList with
  | true =>
    have hsubmit : w.submit i th task line = (.error .emptyLine, w) := if_pos hblank
    exact answers_of_same hw w rfl rfl (by simp only [answer, hsubmit]; rfl) (if_pos hblank)
  | false =>
    have hline : ¬ allBlank line.toList = true := Bool.eq_false_iff.1 hblank
    cases hstopped : w.pool.stopped with
    | true =>
      have hsubmit : w.submit i th task line = (.error .stopped, (w.current th).2) :=
        (if_neg hline).trans (if_pos hstopped)
      exact answers_of_look hw hkey (fun _ => .error .stopped)
        (by simp only [answer, hsubmit]; rfl) ((if_neg hline).trans (if_pos hstopped))
    | false =>
      have hopen : ¬ w.pool.stopped = true := Bool.eq_false_iff.1 hstopped
      let opened := ((w.current th).2.session (w.current th).1).tasks.submit task line
        i.settings.outputLimit.toNat w.now
      let changed := (w.current th).2.modifySession (w.current th).1 fun s =>
        { s with tasks := opened.2 }
      let after : World := { changed with pool := { changed.pool with
        queue := changed.pool.queue ++
          [⟨(w.current th).1, opened.1, w.currentKey th, line⟩] } }
      have hsubmit : w.submit i th task line = (.ok ⟨(w.current th).1, opened.1⟩, after) :=
        (if_neg hline).trans (if_neg hopen)
      have hopened : opened = (w.own key).tasks.submit task line i.settings.outputLimit.toNat
          w.now := by rw [← session_current hw hkey]
      have hchange : Turned key { w.own key with tasks := opened.2 } w changed :=
        turned_change hw hkey (f := fun s => { s with tasks := opened.2 }) fun _ => rfl
      have hafter : Turned key { w.own key with tasks := opened.2 } w after :=
        hchange.same rfl rfl
      have hown : (w.own key).answer i w.around (.submit task line) =
          some (.ok opened.1, { w.own key with tasks := opened.2 }) := by
        rw [hopened]
        exact (if_neg hline).trans (if_neg hopen)
      exact Or.inr ⟨_, after, _, by simp only [answer, hsubmit]; rfl, hown, hafter⟩

/-- **A request is answered from the session of the thread that makes it, and turns no other.** -/
theorem answer_own (hw : w.Keyed) (hkey : w.currentKey th = key) {r : Request}
    (hr : ∀ console text, r = .print console text → console = .terminal) :
    Answers i th key w r := by
  cases r with
  | print console text =>
    obtain rfl := hr console text rfl
    exact answers_of_same hw (w.print .terminal text) rfl rfl rfl rfl
  | sessionLabel =>
    have hlabel : (w.own key).label = (w.currentKey th).label := by
      rw [Session.label, hw.key_own, hkey]
    exact answers_of_same hw w rfl rfl rfl (by rw [Session.answer, hlabel])
  | getVariable name => exact answers_of_look hw hkey (·.getVariable name) rfl rfl
  | setVariable name value =>
    exact answers_of_change hw hkey (·.getVariable name) (fun _ s => s.setVariable name value)
      (fun _ _ => rfl) rfl rfl
  | vars => exact answers_of_look hw hkey (·.vars) rfl rfl
  | history query => exact answers_of_look hw hkey (query.run ·.history) rfl rfl
  | submit task line => exact submit_own hw hkey task line
  | tasks => exact answers_of_look hw hkey (·.tasks.list w.now) rfl rfl
  | clearTasks onlyDone =>
    exact answers_of_change hw hkey (fun s => (s.tasks.clear onlyDone).1)
      (fun found s => { s with tasks := (found.tasks.clear onlyDone).2 }) (fun _ _ => rfl) rfl rfl
  | output task last => exact answers_of_look hw hkey (·.tasks.output? task last) rfl rfl
  | commands => exact answers_of_same hw w rfl rfl rfl rfl
  | exit => exact answers_of_same hw { w with exitRequested := true } rfl rfl rfl rfl
  | clock => exact answers_of_same hw w rfl rfl rfl rfl
  | sleepUntil moment =>
    by_cases hcome : moment ≤ w.now
    · exact answers_of_same hw w rfl rfl (if_pos hcome) (if_pos hcome)
    · exact Or.inl ⟨if_neg hcome, if_neg hcome⟩
  | pass gate =>
    by_cases hopen : gate ∈ w.gates
    · exact answers_of_same hw w rfl rfl (if_pos hopen) (if_pos hopen)
    · exact Or.inl ⟨if_neg hopen, if_neg hopen⟩

end

/-! ## Scripts and calls -/

section

variable {w : World} {i : Interpreter} {th : Thread} {key : SessionKey} {n : Nat}
  {typed rawArgs : String} {arguments : Entry → Except ParseFailure (List Value)}

/-- **A script that prints on the terminal runs in the session of its thread as it would by
itself**, and turns no other session. -/
theorem run_own {α : Type} {script : Script α} (h : script.PrintsOn (· = .terminal))
    (hw : w.Keyed) (hkey : w.currentKey th = key) :
    (script.run i th w).1 = (script.runIn i w.around (w.own key)).1 ∧
      Turned key (script.runIn i w.around (w.own key)).2 w (script.run i th w).2 := by
  induction h generalizing w with
  | done a => exact ⟨rfl, turned_of_same key hw rfl rfl⟩
  | @request r next hprint _ ih =>
    rcases answer_own (i := i) hw hkey hprint with
      ⟨hwait, hown⟩ | ⟨reply, w', s, hanswer, hown, hturned⟩
    · rw [Script.run, Script.runIn, hwait, hown]
      exact ⟨rfl, turned_of_same key hw rfl rfl⟩
    · have hkey' : w'.currentKey th = key := by
        rw [currentKey, bound_answer hanswer]
        exact hkey
      obtain ⟨hresult, hrest⟩ := ih reply hturned.keyed hkey'
      rw [hturned.self, hturned.around] at hresult hrest
      rw [Script.run, Script.runIn, hanswer, hown]
      exact ⟨hresult, hturned.trans hrest⟩

/-- A call that is begun and run at one time leaves its record in the session of its thread. -/
theorem runCall_own (i : Interpreter) (call : Call) {script : Script (Except Failure Json)}
    (h : script.PrintsOn (· = .terminal)) (hw : w.Keyed) (hkey : w.currentKey th = key)
    (hn : w.sessions.number? key = some call.session) (hnow : call.begunAt = w.now) :
    Turned key ((w.own key).conclude i w.around call.typed call.rawArgs script) w
      (w.runCall i th ⟨call, script⟩).2 := by
  obtain ⟨hresult, hturned⟩ := run_own (i := i) h hw hkey
  unfold runCall Session.conclude
  cases hrun : script.run i th w with
  | mk progress w' =>
    cases halone : script.runIn i w.around (w.own key) with
    | mk progress' s =>
      rw [hrun, halone] at hresult hturned
      obtain rfl : progress = progress' := hresult
      cases progress with
      | waiting rest => exact hturned
      | finished outcome =>
        have hrecord : call.record w'.now outcome =
            ⟨call.typed, call.rawArgs, w.around.now, 0, outcome⟩ := by
          have hafter : w'.now = w.now := congrArg Around.now hturned.around
          rw [Call.record, hafter, hnow, Nat.sub_self]
          rfl
        have hpush := turned_modifySession hturned.keyed (hturned.number key _ hn)
          (f := fun s => s.push (call.record w'.now outcome)) fun _ => rfl
        rw [hturned.self] at hpush
        simp only [finishCall, ← hrecord]
        exact hturned.trans hpush

/-- What a call is begun with can be told from its session. -/
theorem beginCall_own (hw : w.Keyed) (hn : w.sessions.number? key = some n) (i : Interpreter)
    (typed rawArgs : String) (arguments : Entry → Except ParseFailure (List Value)) :
    (beginCall i n typed rawArgs arguments w).1 =
        ⟨w.newCall i n typed rawArgs, (w.own key).begun i typed rawArgs arguments⟩ ∧
      (beginCall i n typed rawArgs arguments w).2.bound = w.bound ∧
      Turned key (w.own key) w (beginCall i n typed rawArgs arguments w).2 := by
  have hrequest : w.filterRequest i (w.newCall i n typed rawArgs) =
      ⟨i.registry.canonicalName typed, rawArgs, (w.own key).label⟩ := by
    rw [own_of_number hn]
    rfl
  unfold Session.begun
  rw [← hrequest]
  cases hreject : (i.registry.runFilters (w.filterRequest i (w.newCall i n typed rawArgs))).2 with
  | some failure =>
    rw [beginCall_of_rejected rfl hreject]
    exact ⟨rfl, rfl, turned_of_same key hw rfl rfl⟩
  | none =>
    cases hargs : arguments (i.registry.find typed) with
    | error cause =>
      rw [beginCall_of_unparsed rfl hreject hargs]
      exact ⟨rfl, rfl, turned_of_same key hw rfl rfl⟩
    | ok values =>
      rw [beginCall_of_admitted rfl hreject hargs]
      exact ⟨rfl, rfl, turned_of_same key hw rfl rfl⟩

theorem printsOn_begun (s : Session) (rawArgs : String)
    (h : ∀ values, arguments (i.registry.find typed) = .ok values →
      (i.script typed values).PrintsOn (· = .terminal)) :
    (s.begun i typed rawArgs arguments).PrintsOn (· = .terminal) := by
  unfold Session.begun
  split
  · exact .done _
  · split
    · exact .done _
    · next values hargs => exact h values hargs

/-- **A call turns the session of its thread, and no other.** -/
theorem call_own (hw : w.Keyed) (hkey : w.currentKey th = key)
    (hn : w.sessions.number? key = some n) (i : Interpreter) (typed rawArgs : String)
    (arguments : Entry → Except ParseFailure (List Value))
    (h : ∀ values, arguments (i.registry.find typed) = .ok values →
      (i.script typed values).PrintsOn (· = .terminal)) :
    let begun := beginCall i n typed rawArgs arguments w
    Turned key ((w.own key).call i w.around typed rawArgs arguments) w
      (begun.2.runCall i th begun.1).2 := by
  intro begun
  obtain ⟨hcall, hbound, hturned⟩ := beginCall_own hw hn i typed rawArgs arguments
  have hkey' : begun.2.currentKey th = key := by
    rw [currentKey, hbound]
    exact hkey
  have hnow : w.now = begun.2.now := (congrArg Around.now hturned.around).symm
  have hrun := runCall_own i (w.newCall i n typed rawArgs) (printsOn_begun (w.own key) rawArgs h)
    hturned.keyed hkey' (hturned.number key n hn) hnow
  rw [hturned.self, hturned.around, ← hcall] at hrun
  exact hturned.trans hrun

/-- So does a line. -/
theorem execute_own (hw : w.Keyed) (hkey : w.currentKey th = key) {text : String}
    (h : ∀ typed rest, splitCommand text = some (typed, rest) → ∀ rawArgs values,
      i.parse (i.registry.find typed) rawArgs .terminal w.order = .ok values →
        (i.script typed values).PrintsOn (· = .terminal)) :
    Turned key ((w.own key).line i w.around w.order w.chance text) w
      (w.execute i th text).2 := by
  have hcurrent := turned_current hw hkey
  have hexecute : w.execute i th text =
      (w.current th).2.dispatch i th (w.current th).1 text .terminal := rfl
  rw [hexecute, Session.line]
  cases hsplit : splitCommand text with
  | none =>
    rw [dispatch_of_blank th .terminal ((splitCommand_eq_none_iff text).1 hsplit)]
    exact hcurrent
  | some split =>
    obtain ⟨typed, rest⟩ := split
    rw [dispatch_of_split th .terminal hsplit]
    have hraw : (w.current th).2.substituted (w.current th).1 rest =
        Line.substitute (w.own key).getVariable rest w.chance := by
      rw [substituted, session_current hw hkey]
      rfl
    dsimp only
    rw [hraw]
    generalize Line.substitute (w.own key).getVariable rest w.chance = filled
    have hturned : Turned key (w.own key) w { (w.current th).2 with chance := filled.2 } :=
      hcurrent.same rfl rfl
    have hrun := call_own hturned.keyed hkey (number?_current hkey) i typed filled.1
      (fun e => i.parse e filled.1 .terminal w.order) (h typed rest hsplit filled.1)
    rw [hturned.self, hturned.around] at hrun
    exact hturned.trans hrun

/-- So does a call with values. -/
theorem invoke_own (hw : w.Keyed) (hkey : w.currentKey th = key) {name : String}
    {values : List Value} (h : (i.script name values).PrintsOn (· = .terminal)) :
    Turned key ((w.own key).call i w.around name (valuesText values) fun _ => .ok values) w
      (w.invoke i th name values).2 := by
  have hcurrent := turned_current hw hkey
  have hrun := call_own hcurrent.keyed hkey (number?_current hkey) i name (valuesText values)
    (fun _ => .ok values) fun found hfound => by
      obtain rfl := Except.ok.inj hfound
      exact h
  rw [hcurrent.self, hcurrent.around] at hrun
  exact hcurrent.trans hrun

end

end World

end CommandShell
