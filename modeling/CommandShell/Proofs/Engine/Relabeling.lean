import CommandShell.Proofs.Engine.Records
/-!
# The same call under another label

The word that was typed and the argument text only label a call: neither the script of its handler
nor what answers the requests of that script reads them, nor is the log read that they stand in, or
the order in which tables of literals are walked.  Calls with one script go the same way under any
label, and their records differ in the label alone.

    w.readable              the world without what no request reads: its log and its order
    answering requests reads nothing else                    (answer_withUnread, run_withUnread)
    a call goes the same way under another label     (runCall_relabeled, world_runCall_relabeled)
    and its record differs in the label alone        (Legs.exists_relabeled, Legs.relabeled_eq)
    so it is with calls from before they began, in worlds that read alike       (alike_runCall)
-/

namespace CommandShell

/-- Other labels for calls, which their records show. -/
structure Relabeling where
  call : Call → Call
  record : Record → Record
  session_call : ∀ c, (call c).session = c.session
  record_call : ∀ c now outcome, (call c).record now outcome = record (c.record now outcome)
  record_outcome : ∀ r outcome, record { r with outcome := outcome } =
    { record r with outcome := outcome }

namespace Relabeling

/-- Every call keeps its label. -/
def same : Relabeling := ⟨id, id, fun _ => rfl, fun _ _ _ => rfl, fun _ _ => rfl⟩

/-- The same call by another word. -/
def byWord (word : String) : Relabeling where
  call c := { c with typed := word }
  record r := { r with command := word }
  session_call _ := rfl
  record_call _ _ _ := rfl
  record_outcome _ _ := rfl

/-- The same call with another argument text. -/
def withText (text : String) : Relabeling where
  call c := { c with rawArgs := text }
  record r := { r with rawArgs := text }
  session_call _ := rfl
  record_call _ _ _ := rfl
  record_outcome _ _ := rfl

def invocation (f : Relabeling) (inv : Invocation) : Invocation := ⟨f.call inv.toCall, inv.script⟩

end Relabeling

def Called.relabeled (f : Relabeling) : Called → Called
  | .blank => .blank
  | .finished r => .finished (f.record r)
  | .waiting inv => .waiting (f.invocation inv)

namespace World

variable {i : Interpreter} {th : Thread} {w w' w₀ w₁ : World} {called : Called}
  {inv rest : Invocation} {r r' : Record} {legs legs' : List Leg} {f : Relabeling}

/-- The world with another order and another log. -/
def withUnread (w : World) (order : TableOrder) (events : List Event) : World :=
  { w with order := order, events := events }

/-- What requests may read of a world: all but its order and its log. -/
def readable (w : World) : World := w.withUnread .asFilled []

theorem eq_withUnread (h : w₁.readable = w.readable) : w₁ = w.withUnread w₁.order w₁.events := by
  obtain ⟨⟩ := w
  obtain ⟨⟩ := w₁
  cases h
  rfl

/-! ## Neither the log nor the order is read -/

section

variable (order : TableOrder) (events : List Event)

theorem submit_withUnread (i : Interpreter) (th : Thread) (task line : String) (w : World) :
    (w.withUnread order events).submit i th task line =
      ((w.submit i th task line).1, (w.submit i th task line).2.withUnread order events) := by
  unfold submit
  split
  · rfl
  · dsimp only [withUnread, locate, currentKey]
    split <;> rfl

theorem answer_withUnread (i : Interpreter) (th : Thread) (w : World) (request : Request) :
    (w.withUnread order events).answer i th request = (w.answer i th request).map
      fun answered => (answered.1, answered.2.withUnread order events) := by
  cases request with
  | print console text => cases console <;> rfl
  | submit task line =>
    simp only [answer, submit_withUnread]
    rfl
  | sleepUntil | pass =>
    unfold answer
    rw [apply_ite (Option.map _)]
    rfl
  | _ => rfl

theorem run_withUnread {α : Type} (s : Script α) (w : World) :
    s.run i th (w.withUnread order events) =
      ((s.run i th w).1, (s.run i th w).2.withUnread order events) := by
  induction s generalizing w with
  | done a => rfl
  | request request next ih =>
    rw [Script.run, Script.run, answer_withUnread]
    cases w.answer i th request with
    | none => rfl
    | some answered => exact ih answered.1 answered.2

end

/-! ## One leg -/

theorem runCall_relabeled (f : Relabeling) (inv : Invocation) (h : w₁.readable = w.readable) :
    (w₁.runCall i th (f.invocation inv)).1 = (w.runCall i th inv).1.relabeled f := by
  rw [eq_withUnread h, runCall, runCall, Relabeling.invocation, run_withUnread]
  rcases inv.script.run i th w with ⟨outcome | rest, w'⟩
  · exact congrArg Called.finished (f.record_call inv.toCall w'.now outcome)
  · rfl

/-- A call that waits has left a world behind that reads the same. -/
theorem world_runCall_relabeled (hwaiting : (w.runCall i th inv).1 = .waiting rest)
    (f : Relabeling) (h : w₁.readable = w.readable) :
    (w₁.runCall i th (f.invocation inv)).2.readable = (w.runCall i th inv).2.readable := by
  rw [runCall] at hwaiting ⊢
  rw [eq_withUnread h, runCall, Relabeling.invocation, run_withUnread]
  rcases hrun : inv.script.run i th w with ⟨outcome | rest', w'⟩
  · rw [hrun] at hwaiting
    cases hwaiting
  · rfl

/-! ## All legs -/

/-- Two calls are taken up in worlds that read the same. -/
def AtOnce (legs legs' : List Leg) : Prop :=
  legs'.map (fun l => l.before.readable) = legs.map fun l => l.before.readable

/-- A call under another label can be taken up wherever this one was. -/
theorem Legs.exists_relabeled (h : Legs i th w called w' legs r) (f : Relabeling) {w₁' : World}
    (hbefore : w₁.readable = w.readable)
    (hafter : ∀ inv, called = .waiting inv → w₁'.readable = w'.readable) :
    ∃ legs', Legs i th w₁ (called.relabeled f) w₁' legs' (f.record r) ∧ AtOnce legs legs' := by
  induction h generalizing w₁ w₁' with
  | last w w' r => exact ⟨_, .last w₁ w₁' _, congrArg (fun w => [w]) hbefore⟩
  | @more w w' next inv legs r hn h ih =>
    have hnext : next.readable = next.readable := rfl
    obtain ⟨legs', hlegs, hstart⟩ := ih hnext fun inv' hwaiting =>
      world_runCall_relabeled hwaiting f hnext
    rw [← runCall_relabeled f inv rfl] at hlegs
    have hlen : w₁'.sessions.sessions.length ≤ next.sessions.sessions.length := by
      rw [eq_withUnread (hafter inv rfl)]
      exact hn
    refine ⟨_, .more hlen hlegs, ?_⟩
    rw [AtOnce, List.map_cons, List.map_cons, hstart, hbefore]

/-- And wherever it is, its record differs in the label alone. -/
theorem Legs.relabeled_eq (h : Legs i th w called w' legs r) {w₁' : World}
    (h' : Legs i th w₁ (called.relabeled f) w₁' legs' r') (hstart : AtOnce legs legs') :
    r' = f.record r := by
  induction h generalizing w₁ w₁' legs' with
  | last w w' r =>
    cases h'
    rfl
  | @more w w' next inv legs r hn h ih =>
    cases h' with
    | @more _ _ next' _ legs' _ hn' h' =>
      obtain ⟨rest, rfl, -⟩ := h.first
      obtain ⟨rest', rfl, -⟩ := h'.first
      obtain ⟨-, hlater⟩ := List.cons.inj hstart
      obtain ⟨hnext, -⟩ := List.cons.inj hlater
      rw [runCall_relabeled f inv hnext] at h'
      exact ih h' hlater

/-! ## From before the beginning -/

/-- Two calls go the same way, the first from the world `w` and the second from `w'`: the first
comes to its record, the second can be taken up wherever the first is, and if so then their records
are related.  The first has logged `added` on its way and the second `added'`. -/
structure Alike (i : Interpreter) (th : Thread) (R : Record → Record → Prop) (w w' : World)
    (run run' : Called × World) (added added' : List Event) : Prop where
  ends : ∃ legs r, Legs i th w run.1 run.2 legs r
  follows : ∀ legs r, Legs i th w run.1 run.2 legs r →
    ∃ legs' r', Legs i th w' run'.1 run'.2 legs' r' ∧ AtOnce legs legs'
  agree : ∀ {legs r legs' r'}, Legs i th w run.1 run.2 legs r →
    Legs i th w' run'.1 run'.2 legs' r' → AtOnce legs legs' → R r r'
  logged : ∀ {legs r}, Legs i th w run.1 run.2 legs r → legs.flatMap Leg.events = added
  logged' : ∀ {legs' r'}, Legs i th w' run'.1 run'.2 legs' r' → legs'.flatMap Leg.events = added'

theorem Alike.mono {R R' : Record → Record → Prop} {run run' : Called × World}
    {added added' : List Event} (h : Alike i th R w w' run run' added added')
    (hle : ∀ r r', R r r' → R' r r') : Alike i th R' w w' run run' added added' :=
  ⟨h.ends, h.follows, fun hlegs hlegs' hstart => hle _ _ (h.agree hlegs hlegs' hstart), h.logged,
    h.logged'⟩

/-- Calls that begin with one script go the same way. -/
theorem alike_runCall (f : Relabeling) (inv : Invocation) {w w' w₀ w₀' : World}
    {added added' : List Event} (hn : inv.session < w₀.sessions.sessions.length)
    (hstart : w'.readable = w.readable) (hbegun : w₀'.readable = w₀.readable)
    (hevents : w₀.events = w.events ++ added) (hevents' : w₀'.events = w'.events ++ added') :
    Alike i th (fun r r' => r' = f.record r) w w' (w₀.runCall i th inv)
      (w₀'.runCall i th (f.invocation inv)) added added' where
  ends := exists_legs (settles_runCall i th inv.toCall inv.script _) w _
  follows legs r h := by
    rw [runCall_relabeled f inv hbegun]
    obtain ⟨legs', hlegs, htaken⟩ := h.exists_relabeled f hstart fun rest hwaiting =>
      world_runCall_relabeled hwaiting f hbegun
    exact ⟨legs', _, hlegs, htaken⟩
  agree h h' htaken := by
    rw [runCall_relabeled f inv hbegun] at h'
    exact h.relabeled_eq h' htaken
  logged h := events_begun h hn hevents
  logged' h' := by
    refine events_begun h' ?_ hevents'
    rw [eq_withUnread hbegun]
    exact Nat.lt_of_le_of_lt (Nat.le_of_eq (f.session_call inv.toCall)) hn

end World

end CommandShell
