import CommandShell.Proofs.Engine.Jobs
import CommandShell.Proofs.Record.Query
import CommandShell.Proofs.Session.History
/-!
# Histories in a run

Calls of many callers and background jobs come to their ends in any order, and in between sessions
are reset.  What a session shows of this is the end of what was noted in its history, as much as
the limit allows.

    Notes i s note s'          an act, and what it notes in whose history
    Chronicle i s notes s'     a run, and all that it noted
    every run has a chronicle                                      (Unfolds.exists_chronicle)
    a history is the end of what was noted in it since its last reset
                                                                   (history_is_bounded_tail)
-/

namespace CommandShell

open World

/-! ## What acts note -/

/-- What an edit of a session is to its history. -/
def SessionEdit.historyEdit? : SessionEdit → Option HistoryEdit
  | push r => some (.push r)
  | reset => some .reset
  | _ => none

/-- An act, and what it notes in the history of the session of which number.  A call that comes to
its end pushes its record, whether it is a caller's or that of a job; sessions that are there may be
edited; nothing else is noted. -/
inductive Notes (i : Interpreter) : Scene → Option (Nat × HistoryEdit) → Scene → Prop
  | close {s : Scene} {before after : List (Thread × Invocation)} {th : Thread}
      {inv : Invocation} {outcome : Except Failure Json}
      (hwaiting : s.waiting = before ++ (th, inv) :: after)
      (hscript : inv.script = .done outcome) :
      Notes i s (some (inv.session, .push (inv.record s.world.now outcome)))
        ⟨(s.world.finishCall inv outcome).2, before ++ after⟩
  | finish {s : Scene} {r : Running} {inv : Invocation} {outcome : Except Failure Json}
      (hr : r ∈ s.world.pool.running) (hinv : r.invocation = some inv)
      (hscript : inv.script = .done outcome) :
      Notes i s (some (inv.session, .push (inv.record s.world.now outcome)))
        ⟨s.world.finishJob r inv outcome, s.waiting⟩
  | edit {s : Scene} {n : Nat} (hn : n < s.world.sessions.sessions.length) (e : SessionEdit) :
      Notes i s (e.historyEdit?.map (n, ·)) ⟨s.world.modifySession n e.apply, s.waiting⟩
  | deed {s s' : Scene} {deed : Deed} (h : Act i s deed s') (hdeed : deed ≠ .other)
      (hends : ∀ r record, deed = .ended r record → r.invocation = none) : Notes i s none s'
  | locate (s : Scene) (key : SessionKey) : Notes i s none ⟨(s.world.locate key).2, s.waiting⟩
  | aside {s : Scene} {w : World} (h : Act i s .other ⟨w, s.waiting⟩)
      (hsame : ∀ n, w.session n = s.world.session n) : Notes i s none ⟨w, s.waiting⟩

/-- A run, and all that it noted, in order. -/
inductive Chronicle (i : Interpreter) (s : Scene) : List (Nat × HistoryEdit) → Scene → Prop
  | none : Chronicle i s [] s
  | act {notes : List (Nat × HistoryEdit)} {s' s'' : Scene} {note : Option (Nat × HistoryEdit)}
      (h : Chronicle i s notes s') (hact : Notes i s' note s'') :
      Chronicle i s (notes ++ note.toList) s''

/-- What was noted in the history of one session. -/
def editsOf (n : Nat) (notes : List (Nat × HistoryEdit)) : List HistoryEdit :=
  (notes.filter fun p => p.1 = n).map Prod.snd

variable {i : Interpreter} {s s' : Scene} {deed : Deed} {note : Option (Nat × HistoryEdit)}
  {notes : List (Nat × HistoryEdit)} {run : List Moment} {w w' : World} {now : Timestamp}
  {seed : Nat}

theorem editsOf_append (n : Nat) (notes more : List (Nat × HistoryEdit)) :
    editsOf n (notes ++ more) = editsOf n notes ++ editsOf n more := by
  rw [editsOf, List.filter_append, List.map_append]
  rfl

/-! ## Runs and chronicles -/

theorem Notes.exists_act (h : Notes i s note s') : ∃ deed, Act i s deed s' := by
  cases h with
  | close hwaiting hscript => exact ⟨_, .close hwaiting hscript⟩
  | finish hr hinv hscript => exact ⟨_, .finish hr hinv hscript⟩
  | edit hn e => exact ⟨_, .edit s _ e⟩
  | deed h => exact ⟨_, h⟩
  | locate key => exact ⟨_, .locate s key⟩
  | aside h => exact ⟨_, h⟩

theorem Chronicle.exists_unfolds (h : Chronicle i s notes s') : ∃ run, Unfolds i s run s' := by
  induction h with
  | none => exact ⟨[], .none⟩
  | act _ hact ih =>
    obtain ⟨run, hrun⟩ := ih
    obtain ⟨deed, hdeed⟩ := hact.exists_act
    exact ⟨_, hrun.act hdeed⟩

theorem modifySession_of_length_le {n : Nat} (h : w.sessions.sessions.length ≤ n)
    (f : Session → Session) : w.modifySession n f = w := by
  unfold modifySession SessionTable.modify
  rw [List.modify_eq_self h]

theorem session_shutdown (i : Interpreter) (w : World) (n : Nat) :
    (w.shutdown i).2.session n = w.session n := by
  unfold shutdown
  split <;> rfl

theorem Act.exists_notes (h : Act i s deed s') : ∃ note, Notes i s note s' := by
  cases h with
  | close hwaiting hscript => exact ⟨_, .close hwaiting hscript⟩
  | finish hr hinv hscript => exact ⟨_, .finish hr hinv hscript⟩
  | edit n e =>
    by_cases hn : n < s.world.sessions.sessions.length
    · exact ⟨_, .edit hn e⟩
    · -- a session that was never made is not edited
      have hsame := modifySession_of_length_le (Nat.le_of_not_lt hn) e.apply
      exact ⟨_, .aside (.edit s n e) fun m => by rw [hsame]⟩
  | locate key => exact ⟨_, .locate s key⟩
  | bind c key =>
    refine ⟨_, .aside (.bind s c key) fun n => ?_⟩
    cases key <;> rfl
  | forget key => exact ⟨_, .aside (.forget s key) fun _ => rfl⟩
  | openGate gate => exact ⟨_, .aside (.openGate s gate) fun _ => rfl⟩
  | passTo moment => exact ⟨_, .aside (.passTo s moment) fun _ => rfl⟩
  | reorder order => exact ⟨_, .aside (.reorder s order) fun _ => rfl⟩
  | start => exact ⟨_, .aside (.start s) fun _ => rfl⟩
  | shutdown => exact ⟨_, .aside (.shutdown s) (session_shutdown i s.world)⟩
  | release hr hinv =>
    refine ⟨_, .deed (.release hr hinv) (by simp) fun r record hdeed => ?_⟩
    obtain ⟨rfl, -⟩ := Deed.ended.inj hdeed
    exact hinv
  | call h => exact ⟨_, .deed (.call h) (by simp) (by simp)⟩
  | invoke h => exact ⟨_, .deed (.invoke h) (by simp) (by simp)⟩
  | request hwaiting hscript h => exact ⟨_, .deed (.request hwaiting hscript h) (by simp) (by simp)⟩
  | ask hprint h => exact ⟨_, .deed (.ask hprint h) (by simp) (by simp)⟩
  | begin h hrunning => exact ⟨_, .deed (.begin h hrunning) (by simp) (by simp)⟩
  | proceed hr hinv hscript h => exact ⟨_, .deed (.proceed hr hinv hscript h) (by simp) (by simp)⟩

/-- Every run has a chronicle. -/
theorem Unfolds.exists_chronicle (h : Unfolds i s run s') : ∃ notes, Chronicle i s notes s' := by
  induction h with
  | none => exact ⟨[], .none⟩
  | act _ hact ih =>
    obtain ⟨notes, hnotes⟩ := ih
    obtain ⟨note, hnote⟩ := hact.exists_notes
    exact ⟨_, hnotes.act hnote⟩

/-! ## Calls are made in sessions that are there -/

theorem Turn.length_le (h : Turn i w deed w') :
    w.sessions.sessions.length ≤ w'.sessions.sessions.length := by
  have hrelease (w : World) (r : Running) (record : Record) :
      w.sessions.sessions.length ≤ (w.releaseJob r record).sessions.sessions.length := by
    obtain ⟨w₁, hquiet, -, -, heq⟩ := exists_quiet_releaseJob w r record
    rw [heq]
    exact hquiet.sessions
  cases h with
  | still hdeed h => exact h.sessions
  | asked h => exact (quiet_answer h).sessions
  | began => exact Nat.le_refl _
  | proceeded hr hinv hscript h => exact (quiet_answer h).sessions
  | @finished r inv outcome hr hinv hscript =>
    refine Nat.le_trans ?_ (hrelease _ r _)
    exact Nat.le_of_eq (length_modifySession w inv.session _).symm
  | released hr hinv => exact hrelease w _ _

/-- The calls of callers are made in sessions that are there. -/
def Scene.Housed (s : Scene) : Prop :=
  ∀ p ∈ s.waiting, p.2.session < s.world.sessions.sessions.length

theorem Scene.Housed.act (hs : s.Housed) (hsound : s.world.Sound) (h : Act i s deed s') :
    s'.Housed := by
  intro p hp
  rcases h.waiting hp with ⟨q, hq, hcall⟩ | ⟨c, typed, rawArgs, v, hcall, hsessions⟩
  · rw [hcall]
    exact Nat.lt_of_lt_of_le (hs q hq) h.turn.length_le
  · rw [hcall, hsessions]
    exact locate_lt hsound _

theorem housed_unfolds (h : Unfolds i (.initial i now seed) run s) : s.Housed := by
  induction h with
  | none => exact fun _ hp => absurd hp List.not_mem_nil
  | act hrun hact ih => exact ih.act (staffed_unfolds hrun).sound hact

/-! ## What acts do to histories -/

/-- No history has changed, nor what may be held of it. -/
def SameHistories (w w' : World) : Prop :=
  ∀ n, (w'.session n).history = (w.session n).history ∧
    (w'.session n).historyLimit = (w.session n).historyLimit

theorem sameHistories_of_same (h : ∀ n, w'.session n = w.session n) : SameHistories w w' := by
  intro n
  rw [h n]
  exact ⟨rfl, rfl⟩

theorem World.Quiet.sameHistories (h : Quiet w w') : SameHistories w w' :=
  fun n => ⟨h.history n, h.limit n⟩

theorem sameHistories_releaseJob (w : World) (r : Running) (record : Record) :
    SameHistories w (w.releaseJob r record) := by
  obtain ⟨w₁, hquiet, -, -, heq⟩ := exists_quiet_releaseJob w r record
  rw [heq]
  exact hquiet.sameHistories

/-- Nothing but the end of a call and what belongs to no call changes a history. -/
theorem Act.sameHistories (h : Act i s deed s') (hdeed : deed ≠ .other)
    (hends : ∀ r record, deed = .ended r record → r.invocation = none) :
    SameHistories s.world s'.world := by
  cases h with
  | call h =>
    obtain ⟨-, chance, added, rfl⟩ := exists_log_of_beginLine h
    exact (quiet_locate s.world _).sameHistories
  | invoke h =>
    obtain ⟨-, added, rfl⟩ := exists_log_of_beginCall h
    exact (quiet_locate s.world _).sameHistories
  | request hwaiting hscript h => exact (quiet_answer h).sameHistories
  | ask hprint h => exact (quiet_answer h).sameHistories
  | begin h hrunning =>
    obtain ⟨job, queue, invocation, w₁, -, -, hbegin, rfl⟩ := startNext_cases h
    rcases hbegin with ⟨-, -, rfl⟩ | ⟨inv, -, hbegin⟩
    · exact sameHistories_of_same fun _ => rfl
    · obtain ⟨-, chance, added, rfl⟩ := exists_log_of_beginLine hbegin
      exact sameHistories_of_same fun _ => rfl
  | proceed hr hinv hscript h => exact (quiet_answer h).sameHistories
  | release hr hinv => exact sameHistories_releaseJob s.world _ _
  | finish hr hinv hscript =>
    have hnone := hends _ _ rfl
    rw [hinv] at hnone
    cases hnone
  | _ => exact absurd rfl hdeed

theorem SessionEdit.sameHistories {e : SessionEdit} (h : e.historyEdit? = none) (w : World)
    (n : Nat) : SameHistories w (w.modifySession n e.apply) := by
  cases e with
  | push r => cases h
  | reset => cases h
  | setVariable name value =>
    exact (quiet_modifySession w n (f := fun s => s.setVariable name value)
      fun _ => ⟨rfl, rfl, rfl⟩).sameHistories
  | removeVariable name =>
    exact (quiet_modifySession w n (f := fun s => s.removeVariable name)
      fun _ => ⟨rfl, rfl, rfl⟩).sameHistories
  | clearTasks onlyDone =>
    exact (quiet_modifySession w n (f := fun s => { s with tasks := (s.tasks.clear onlyDone).2 })
      fun _ => ⟨rfl, rfl, rfl⟩).sameHistories

/-- An act changes the history that it notes something in, and no other. -/
theorem Notes.histories (h : Notes i s note s') (hs : s.Housed)
    (hjobs : ∀ r ∈ s.world.pool.running, ∀ inv, r.invocation = some inv →
      inv.session < s.world.sessions.sessions.length) :
    note = none ∧ SameHistories s.world s'.world ∨
      ∃ n e, note = some (n, e) ∧ n < s.world.sessions.sessions.length ∧
        SameHistories (s.world.modifySession n e.apply) s'.world := by
  cases h with
  | @close before after th inv outcome hwaiting hscript =>
    refine Or.inr ⟨_, _, rfl, hs (th, inv) ?_, sameHistories_of_same fun _ => rfl⟩
    rw [hwaiting]
    exact List.mem_append_right _ List.mem_cons_self
  | finish hr hinv hscript =>
    exact Or.inr ⟨_, _, rfl, hjobs _ hr _ hinv, sameHistories_releaseJob _ _ _⟩
  | @edit n hn e =>
    cases hedit : e.historyEdit? with
    | none => exact Or.inl ⟨rfl, e.sameHistories hedit s.world n⟩
    | some edit =>
      refine Or.inr ⟨n, edit, rfl, hn, sameHistories_of_same fun _ => ?_⟩
      cases e <;> cases hedit <;> rfl
  | deed h hdeed hends => exact Or.inl ⟨rfl, h.sameHistories hdeed hends⟩
  | locate key => exact Or.inl ⟨rfl, (quiet_locate s.world key).sameHistories⟩
  | aside h hsame => exact Or.inl ⟨rfl, sameHistories_of_same hsame⟩

/-- The history of every session is the end of what was noted in it. -/
def Recorded (i : Interpreter) (notes : List (Nat × HistoryEdit)) (w : World) : Prop :=
  ∀ n, Retains i.settings.historyLimit.toNat (pushed (editsOf n notes)) (w.session n).history ∧
    (w.session n).historyLimit = i.settings.historyLimit.toNat

theorem Recorded.same (h : Recorded i notes w) (hsame : SameHistories w w') :
    Recorded i notes w' := by
  intro n
  rw [(hsame n).1, (hsame n).2]
  exact h n

theorem Recorded.edit (h : Recorded i notes w) {n : Nat} (hn : n < w.sessions.sessions.length)
    (e : HistoryEdit) : Recorded i (notes ++ [(n, e)]) (w.modifySession n e.apply) := by
  intro m
  obtain ⟨hretains, hlimit⟩ := h m
  rw [editsOf_append]
  by_cases hm : m = n
  · subst hm
    have hself : editsOf m [(m, e)] = [e] := by simp [editsOf]
    rw [session_modifySession_self hn, hself, pushed_concat]
    exact hretains.apply hlimit e
  · have hother : editsOf m [(n, e)] = [] := by simp [editsOf, Ne.symm hm]
    rw [session_modifySession_of_ne hm, hother, List.append_nil]
    exact ⟨hretains, hlimit⟩

theorem recorded_chronicle (h : Chronicle i (.initial i now seed) notes s) :
    Recorded i notes s.world := by
  induction h with
  | none => exact fun _ => ⟨retains_nil _, rfl⟩
  | act hbefore hact ih =>
    obtain ⟨run, hrun⟩ := hbefore.exists_unfolds
    have hstaffed := staffed_unfolds hrun
    rcases hact.histories (housed_unfolds hrun) fun r hr inv hinv => hstaffed.session_lt hr hinv
      with ⟨rfl, hsame⟩ | ⟨n, e, rfl, hn, hsame⟩
    · rw [Option.toList_none, List.append_nil]
      exact ih.same hsame
    · exact (ih.edit hn e).same hsame

/-- **A history is the bounded end of what happened.**  However calls, jobs, edits and resets of
sessions are interleaved, the history of a session is the last of the records that were pushed
since its last reset, in order and as many as its limit allows; its newest record is the last of
them; and what a query gets is the one answer that shows the newest that match, newest first, each
with the fields that were asked for. -/
theorem history_is_bounded_tail (h : Chronicle i (.initial i now seed) notes s) (n : Nat) :
    Retains i.settings.historyLimit.toNat (pushed (editsOf n notes))
        (s.world.session n).history ∧
      (s.world.session n).last? = (s.world.session n).history.getLast? ∧
      ∀ (q : HistoryQuery) (rows : List Json),
        rows = q.run (s.world.session n).history ↔ q.Answer (s.world.session n).history rows :=
  ⟨(recorded_chronicle h n).1, rfl, fun q _ => q.answer_iff.symm⟩

/-- A command that answers at once. -/
def ping : Entry := Entry.ofHandler "ping" (.command fun _ => .done (.answered .null))

/-- A call and a reset, then three records where there is room for two. -/
theorem two_of_three_since_reset :
    let settings : Settings := { Settings.default with historyLimit := 2 }
    let i : Interpreter := ⟨settings, .ofEntries Strategy.builtin [ping], .builtin, []⟩
    let r (name : String) : Record := ⟨name, "", 0, 0, .ok .null⟩
    let notes : List (Nat × HistoryEdit) :=
      [(0, .push (r "ping")), (0, .reset), (0, .push (r "a")), (0, .push (r "b")),
        (0, .push (r "c"))]
    let q : HistoryQuery := ⟨none, some 1, ["command", "color", "command"]⟩
    ∃ s, Chronicle i (.initial i 0 1) notes s ∧
      Retains 2 [r "a", r "b", r "c"] (s.world.session 0).history ∧
      (s.world.session 0).history = [r "b", r "c"] ∧
      q.run (s.world.session 0).history =
        [.fields [("color", .null), ("command", .string "c")]] := by
  intro settings i r notes q
  have hbegin : ((Scene.initial i 0 1).world.current (.caller 0)).2.beginLine i
      ((Scene.initial i 0 1).world.current (.caller 0)).1 "ping" .terminal =
        some (⟨⟨0, "ping", some ping, "", 0⟩, .done (.ok .null)⟩, _) := rfl
  have hcalled := Chronicle.none.act (.deed (.call hbegin) (by simp) (by simp))
  have hclosed := hcalled.act (.close (show _ = [] ++ (_, _) :: [] from rfl) rfl)
  have hreset := hclosed.act (.edit (n := 0) (by decide) .reset)
  have ha := hreset.act (.edit (n := 0) (by decide) (.push (r "a")))
  have hb := ha.act (.edit (n := 0) (by decide) (.push (r "b")))
  have hc := hb.act (.edit (n := 0) (by decide) (.push (r "c")))
  have h : Chronicle i (.initial i 0 1) notes _ := hc
  exact ⟨_, h, (history_is_bounded_tail h 0).1, rfl, rfl⟩

end CommandShell
