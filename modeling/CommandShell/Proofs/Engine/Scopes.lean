import CommandShell.Proofs.Engine.Guards
import CommandShell.Proofs.Engine.Steady
/-!
# Scopes

A scope binds a thread to a key until it is closed: an explicit session does, and so does work that
is run under a key.  If every scope is closed before those around it, as it is where scopes are
blocks of a program, then the scopes that are open are a stack, even when the work in them panics.

    Routine th              a program of a thread, with its scopes as blocks
    r.run i scopes w        where it comes by, what it closes, and how it ends
    Orderly th w j          the thread is always bound to the innermost scope that is open, a closed
                            session is emptied and no other, and in the end all is bound as at first
    every run is orderly                                            (orderly_run, scopes_nest)
-/

namespace CommandShell

open World

/-! ## Programs with scopes -/

/-- Something that is done without opening or closing a scope. -/
inductive Chore (th : Thread) where
  | execute (line : String)
  | invoke (name : String) (values : List Value)
  /-- A call that waited goes on. -/
  | resume (inv : Invocation)
  | submit (task line : String)
  | locate (key : SessionKey)
  | edit (n : Nat) (e : SessionEdit)
  /-- What others do meanwhile; they neither bind the thread nor forget a session. -/
  | meanwhile (others : World → World) (h : ∀ w, Steady th w (others w))

/-- Does a chore.  One that makes no call counts as a blank line. -/
def Chore.perform {th : Thread} (i : Interpreter) : Chore th → World → Called × World
  | execute line, w => w.execute i th line
  | invoke name values, w => w.invoke i th name values
  | resume inv, w => w.runCall i th inv
  | submit task line, w => (.blank, (w.submit i th task line).2)
  | locate key, w => (.blank, (w.locate key).2)
  | edit n e, w => (.blank, w.modifySession n e.apply)
  | meanwhile others _, w => (.blank, others w)

/-- The worlds that a chore comes by: those in which the handler of a call is at work. -/
def Chore.worlds {th : Thread} (i : Interpreter) : Chore th → World → List World
  | execute line, w =>
    let (n, w) := w.current th
    match w.beginLine i n line .terminal with
    | none => []
    | some (inv, w) => w :: inv.script.worlds i th w
  | invoke name values, w =>
    let (n, w) := w.current th
    let (inv, w) := w.beginCall i n name (valuesText values) fun _ => .ok values
    w :: inv.script.worlds i th w
  | resume inv, w => inv.script.worlds i th w
  | _, _ => []

/-- A program of a thread.  Each scope is a block, so that it is closed before those around it. -/
inductive Routine (th : Thread) where
  | done
  | panics
  /-- How it goes on may depend on the call that was made and on the world. -/
  | does (chore : Chore th) (next : Called → World → Routine th)
  /-- A panic of the body is caught; how it goes on may depend on whether there was one. -/
  | attempt (body : Routine th) (next : Bool → Routine th)
  /-- An explicit session is opened by name, and its guard disposed of when the body ends. -/
  | explicit (name : String) (body next : Routine th)
  /-- The body is run under a key. -/
  | runAs (key : SessionKey) (body next : Routine th)

/-- A line that is run under a key. -/
def Routine.executeAs {th : Thread} (key : SessionKey) (line : String) (next : Routine th) :
    Routine th :=
  .runAs key (.does (.execute line) fun _ _ => .done) next

/-- A point that a program comes by: the keys of its open scopes, the innermost first, and the
world. -/
structure Point where
  scopes : List SessionKey
  world : World

/-- The end of an explicit session. -/
structure Closing where
  name : String
  guard : World.Guard
  before : World
  after : World

/-- What came of a program. -/
structure Journal where
  /-- In the order in which they were come by. -/
  points : List Point
  closings : List Closing
  panicked : Bool
  world : World

namespace Journal

/-- Nothing came of it, except perhaps a panic. -/
def here (scopes : List SessionKey) (w : World) (panicked : Bool) : Journal :=
  ⟨[⟨scopes, w⟩], [], panicked, w⟩

/-- A chore that came by some worlds on its way to another. -/
def during (scopes : List SessionKey) (worlds : List World) (after : World) : Journal :=
  ⟨worlds.map fun w => ⟨scopes, w⟩, [], false, after⟩

/-- One journal and then another that begins where it ends. -/
def append (j k : Journal) : Journal :=
  ⟨j.points ++ k.points, j.closings ++ k.closings, k.panicked, k.world⟩

/-- Goes on after a block, unless it has panicked. -/
def goOn (j : Journal) (scopes : List SessionKey) (next : World → Journal) : Journal :=
  j.append (if j.panicked then here scopes j.world true else next j.world)

/-- Closes the session that was opened for a block. -/
def close (j : Journal) (name : String) (g : World.Guard) : Journal :=
  { j with
    closings := j.closings ++ [⟨name, g, j.world, j.world.dispose g⟩]
    world := j.world.dispose g }

end Journal

/-- Runs a program in some scopes. -/
def Routine.run {th : Thread} (i : Interpreter) : Routine th → List SessionKey → World → Journal
  | done, scopes, w => .here scopes w false
  | panics, scopes, w => .here scopes w true
  | does chore next, scopes, w =>
    let (called, after) := chore.perform i w
    (Journal.here scopes w false).append
      ((Journal.during scopes (chore.worlds i w) after).append
        ((next called after).run i scopes after))
  | attempt body next, scopes, w =>
    let j := body.run i scopes w
    j.append ((next j.panicked).run i scopes j.world)
  | explicit name body next, scopes, w =>
    let (g, opened) := w.openSession th name
    let j := (body.run i (.named name :: scopes) opened).close name g
    (Journal.here scopes w false).append (j.goOn scopes (next.run i scopes))
  | runAs key body next, scopes, w =>
    let (j, after) := w.runAs th key fun bound =>
      let j := body.run i (key :: scopes) bound
      (j, j.world)
    (Journal.here scopes w false).append
      ({ j with world := after }.goOn scopes (next.run i scopes))

/-- To run a line under a key is what it is as a block. -/
theorem Routine.run_executeAs {th : Thread} (i : Interpreter) (key : SessionKey) (line : String)
    (scopes : List SessionKey) (w : World) :
    ((executeAs key line .done : Routine th).run i scopes w).world =
      (w.executeAs i th key line).2 := rfl

/-! ## One chore -/

variable {th : Thread} {w next after : World} {worlds : List World} {j k : Journal} {n : Nat}
  {scopes : List SessionKey} {key : SessionKey} {name : String}

/-- A chore is steady all along. -/
theorem Chore.along (chore : Chore th) (i : Interpreter) (w : World) :
    Along th w (chore.worlds i w) (chore.perform i w).2 := by
  cases chore with
  | execute line =>
    have hcurrent : Steady th w (w.current th).2 := steady_current w th
    simp only [worlds, perform, World.execute, dispatch]
    cases hbegin : (w.current th).2.beginLine i (w.current th).1 line .terminal with
    | none => exact .stop hcurrent
    | some begun =>
      obtain ⟨inv, w₁⟩ := begun
      exact .pass (hcurrent.trans (steady_beginLine hbegin)) (along_runCall i th inv w₁)
  | invoke name values =>
    have hcurrent : Steady th w (w.current th).2 := steady_current w th
    rcases hbegin : (w.current th).2.beginCall i (w.current th).1 name (valuesText values)
      (fun _ => .ok values) with ⟨inv, w₁⟩
    simp only [worlds, perform, World.invoke, hbegin]
    exact .pass (hcurrent.trans (steady_beginCall hbegin)) (along_runCall i th inv w₁)
  | resume inv => exact along_runCall i th inv w
  | submit task line => exact .stop (steady_submit i th task line w)
  | locate key => exact .stop (steady_locate w key)
  | edit n e => exact .stop (steady_modifySession w n e.key_apply)
  | meanwhile others h => exact .stop (h w)

/-! ## One scope -/

/-- A number stands for the one session of a key. -/
structure World.Registered (w : World) (key : SessionKey) (n : Nat) : Prop where
  number : w.sessions.number? key = some n
  made : n < w.sessions.sessions.length
  own : (w.session n).key = key
  only : ∀ other, w.sessions.number? other = some n → other = key

theorem World.Keyed.registered (hw : w.Keyed) (h : w.sessions.number? key = some n) :
    w.Registered key n where
  number := h
  made := (hw key n h).1
  own := (hw key n h).2
  only other hother := (hw other n hother).2.symm.trans (hw key n h).2

/-- The session of a name is emptied in place, and that is all that becomes of any session. -/
structure Closing.Empties (th : Thread) (c : Closing) : Prop where
  current : c.before.currentKey th = .named c.name
  registered : c.before.Registered (.named c.name) c.guard.session
  emptied : c.after.session c.guard.session =
    { c.before.session c.guard.session with
      vars := []
      history := []
      tasks := { (c.before.session c.guard.session).tasks with live := [], retired := [] } }
  others : ∀ n, n ≠ c.guard.session → c.after.session n = c.before.session n
  known : c.after.sessions.known = c.before.sessions.known
  stays : c.after.Registered (.named c.name) c.guard.session

theorem Session.reset_eq (s : Session) : s.reset =
    { s with vars := [], history := [], tasks := { s.tasks with live := [], retired := [] } } := by
  simp only [Session.reset, TaskIndex.clear, Bool.false_and, List.filter_false]

theorem empties_dispose {g : World.Guard} (hw : w.Keyed)
    (hbound : Assoc.get? th w.bound = some (.named name))
    (hnumber : w.sessions.number? (.named name) = some g.session) :
    (⟨name, g, w, w.dispose g⟩ : Closing).Empties th := by
  have hsessions : (w.dispose g).sessions = (w.modifySession g.session Session.reset).sessions :=
    sessions_bind _ _ _
  have hsession (n : Nat) :
      (w.dispose g).session n = (w.modifySession g.session Session.reset).session n := by
    rw [session, session, hsessions]
  have hcleared : (w.modifySession g.session Session.reset).Keyed :=
    hw.modifySession g.session fun _ => rfl
  have hreset := session_modifySession_self (hw _ _ hnumber).1 Session.reset
  exact {
    current := by
      rw [currentKey, hbound]
      rfl
    registered := hw.registered hnumber
    emptied := ((hsession g.session).trans hreset).trans (Session.reset_eq _)
    others := fun n hn => (hsession n).trans (session_modifySession_of_ne hn w Session.reset)
    known := by
      dsimp only
      rw [hsessions]
      rfl
    stays := (hcleared.same hsessions).registered (by
      dsimp only
      rw [hsessions]
      exact hnumber) }

/-- A thread that was bound anew for a while is bound as before. -/
theorem steady_bound_again {opened : World} (hin : Keeps w opened)
    (hopened : w.Keyed → opened.Keyed) (h : Steady th opened after) :
    Steady th w (after.bind th (Assoc.get? th w.bound)) where
  bound := bound_bind after th _
  number := (hin.trans h.number).trans (keeps_of_same (sessions_bind _ _ _))
  keyed hw := (h.keyed (hopened hw)).same (sessions_bind _ _ _)

/-! ## What came of a program -/

/-- What holds of a journal that begins in a world: at each point the thread is bound to the key of
the innermost scope, no key changes its number, each session that is closed is emptied, and in the
end the thread is bound as it was. -/
structure Journal.Orderly (th : Thread) (w : World) (j : Journal) : Prop where
  point : ∀ p ∈ j.points, p.world.Keyed ∧ Assoc.get? th p.world.bound = p.scopes.head?
  since : ∀ p ∈ j.points, Keeps w p.world
  upTo : ∀ p ∈ j.points, Keeps p.world j.world
  between : j.points.Pairwise fun p q => Keeps p.world q.world
  closing : ∀ c ∈ j.closings, c.Empties th
  whole : Steady th w j.world

namespace Journal

theorem orderly_here (hw : w.Keyed) (hbound : Assoc.get? th w.bound = scopes.head?)
    (panicked : Bool) : (here scopes w panicked).Orderly th w where
  point := List.forall_mem_singleton.2 ⟨hw, hbound⟩
  since := List.forall_mem_singleton.2 (Keeps.refl w)
  upTo := List.forall_mem_singleton.2 (Keeps.refl w)
  between := List.pairwise_singleton _ _
  closing _ hc := absurd hc List.not_mem_nil
  whole := Steady.refl th w

theorem Orderly.append (h : j.Orderly th w) (h' : k.Orderly th j.world) :
    (j.append k).Orderly th w where
  point := List.forall_mem_append.2 ⟨h.point, h'.point⟩
  since := List.forall_mem_append.2
    ⟨h.since, fun p hp => h.whole.number.trans (h'.since p hp)⟩
  upTo := List.forall_mem_append.2
    ⟨fun p hp => (h.upTo p hp).trans h'.whole.number, h'.upTo⟩
  between := List.pairwise_append.2
    ⟨h.between, h'.between, fun p hp q hq => (h.upTo p hp).trans (h'.since q hq)⟩
  closing := List.forall_mem_append.2 ⟨h.closing, h'.closing⟩
  whole := h.whole.trans h'.whole

/-- What begins after something steady may as well begin before it. -/
theorem Orderly.earlier (h : j.Orderly th next) (hsteady : Steady th w next) :
    j.Orderly th w where
  point := h.point
  since p hp := hsteady.number.trans (h.since p hp)
  upTo := h.upTo
  between := h.between
  closing := h.closing
  whole := hsteady.trans h.whole

theorem orderly_during (h : Along th w worlds after) (hw : w.Keyed)
    (hbound : Assoc.get? th w.bound = scopes.head?) :
    (during scopes worlds after).Orderly th w := by
  induction h with
  | stop h =>
    exact ⟨by simp [during], by simp [during], by simp [during], .nil, by simp [during], h⟩
  | pass h _ ih =>
    have hkeyed := h.keyed hw
    have hnext := h.bound.trans hbound
    exact ((orderly_here hkeyed hnext false).append (ih hkeyed hnext)).earlier h

/-- A block that is left: it was entered in one world, and another is left behind. -/
theorem Orderly.leave {opened : World} {closings : List Closing} (h : j.Orderly th opened)
    (hin : Keeps w opened) (hout : Keeps j.world after)
    (hclosings : ∀ c ∈ closings, c.Empties th) (hwhole : Steady th w after) :
    ({ j with closings := closings, world := after } : Journal).Orderly th w where
  point := h.point
  since p hp := hin.trans (h.since p hp)
  upTo p hp := (h.upTo p hp).trans hout
  between := h.between
  closing := hclosings
  whole := hwhole

/-- After a block the program goes on, or its panic does. -/
theorem Orderly.goOn (h : j.Orderly th w) (hw : w.Keyed)
    (hbound : Assoc.get? th w.bound = scopes.head?) {next : World → Journal}
    (hnext : j.world.Keyed → Assoc.get? th j.world.bound = scopes.head? →
      (next j.world).Orderly th j.world) : (j.goOn scopes next).Orderly th w := by
  have hkeyed : j.world.Keyed := h.whole.keyed hw
  have hafter : Assoc.get? th j.world.bound = scopes.head? := h.whole.bound.trans hbound
  refine h.append ?_
  split
  · exact orderly_here hkeyed hafter true
  · exact hnext hkeyed hafter

/-- An explicit session around a block that is orderly. -/
theorem orderly_explicit (hw : w.Keyed) (hbody : (w.openSession th name).2.Keyed →
      Assoc.get? th (w.openSession th name).2.bound = some (.named name) →
      j.Orderly th (w.openSession th name).2) :
    (j.close name (w.openSession th name).1).Orderly th w := by
  have hkeeps : Keeps w (w.openSession th name).2 :=
    (keeps_locate w (.named name)).trans (keeps_of_same (sessions_bind _ _ _))
  have hkeyed : (w.openSession th name).2.Keyed :=
    (hw.locate (.named name)).same (sessions_bind _ _ _)
  have hbound : Assoc.get? th (w.openSession th name).2.bound = some (.named name) :=
    bound_bind _ th (some (.named name))
  have hnumber : (w.openSession th name).2.sessions.number? (.named name) =
      some (w.openSession th name).1.session := number?_locate w (.named name)
  have h := hbody hkeyed hbound
  have hclosed : (⟨name, (w.openSession th name).1, j.world,
      j.world.dispose (w.openSession th name).1⟩ : Closing).Empties th :=
    empties_dispose (h.whole.keyed hkeyed) (h.whole.bound.trans hbound)
      (h.whole.number _ _ hnumber)
  have hcleared : Steady th (w.openSession th name).2
      (j.world.modifySession (w.openSession th name).1.session Session.reset) :=
    h.whole.trans (steady_modifySession _ _ fun _ => rfl)
  refine h.leave hkeeps ?_ ?_ ?_
  · have hreset : Keeps j.world
        (j.world.modifySession (w.openSession th name).1.session Session.reset) := Keeps.refl _
    exact hreset.trans (keeps_of_same (sessions_bind _ _ _))
  · exact List.forall_mem_append.2 ⟨h.closing, List.forall_mem_singleton.2 hclosed⟩
  · exact steady_bound_again hkeeps (fun _ => hkeyed) hcleared

/-- A block that is orderly, run under a key. -/
theorem orderly_runAs (hw : w.Keyed) (hbody : (w.bind th (some key)).Keyed →
      Assoc.get? th (w.bind th (some key)).bound = some key →
      j.Orderly th (w.bind th (some key))) :
    ({ j with world := j.world.bind th (Assoc.get? th w.bound) } : Journal).Orderly th w := by
  have hkeeps : Keeps w (w.bind th (some key)) := keeps_of_same (sessions_bind _ _ _)
  have hkeyed : (w.bind th (some key)).Keyed := hw.same (sessions_bind _ _ _)
  have h := hbody hkeyed (bound_bind w th (some key))
  exact h.leave hkeeps (keeps_of_same (sessions_bind _ _ _)) h.closing
    (steady_bound_again hkeeps (fun _ => hkeyed) h.whole)

end Journal

/-- **A program in some scopes is orderly.** -/
theorem orderly_run (r : Routine th) (i : Interpreter) (scopes : List SessionKey) (w : World)
    (hw : w.Keyed) (hbound : Assoc.get? th w.bound = scopes.head?) :
    (r.run i scopes w).Orderly th w := by
  induction r generalizing scopes w with
  | done => exact Journal.orderly_here hw hbound false
  | panics => exact Journal.orderly_here hw hbound true
  | does chore next ih =>
    have halong := chore.along i w
    have hnext := ih (chore.perform i w).1 (chore.perform i w).2 scopes (chore.perform i w).2
      (halong.steady.keyed hw) (halong.steady.bound.trans hbound)
    exact (Journal.orderly_here hw hbound false).append
      ((Journal.orderly_during halong hw hbound).append hnext)
  | attempt body next hbody hnext =>
    have hj := hbody scopes w hw hbound
    exact hj.append (hnext _ scopes _ (hj.whole.keyed hw) (hj.whole.bound.trans hbound))
  | explicit name body next hbody hnext =>
    refine (Journal.orderly_here hw hbound false).append (Journal.Orderly.goOn ?_ hw hbound ?_)
    · exact Journal.orderly_explicit hw fun hkeyed hopened =>
        hbody (.named name :: scopes) _ hkeyed hopened
    · exact hnext scopes _
  | runAs key body next hbody hnext =>
    refine (Journal.orderly_here hw hbound false).append (Journal.Orderly.goOn ?_ hw hbound ?_)
    · exact Journal.orderly_runAs hw fun hkeyed hopened =>
        hbody (key :: scopes) _ hkeyed hopened
    · exact hnext scopes _

/-- **Scopes that are closed in reverse order are a stack.**  A program whose scopes are blocks, run
by a thread that is not bound, acts at each point under the key of the innermost scope that is open,
or for the thread itself if none is, whatever the work in the scopes is and whether it panics.  What
it acts in is the one session of that key, which keeps its number for good.  Where an explicit
session is closed, that session is emptied in place, and nothing becomes of any other.  In the end
the thread acts for itself.  (Of the world it is asked only what holds of all that come about, see
`keyed_unfolds`.) -/
theorem scopes_nest (i : Interpreter) (th : Thread) (r : Routine th) (w : World) (hw : w.Keyed)
    (hfree : Assoc.get? th w.bound = none) :
    let j := r.run i [] w
    (∀ p ∈ j.points, p.world.currentKey th = p.scopes.headD th.ownKey ∧
      (p.world.current th).2.Registered (p.scopes.headD th.ownKey) (p.world.current th).1 ∧
      ∀ n, p.world.sessions.number? (p.scopes.headD th.ownKey) = some n →
        p.world.current th = (n, p.world)) ∧
      (j.points.Pairwise fun p q => ∀ key n, p.world.sessions.number? key = some n →
        p.world.Registered key n ∧ q.world.Registered key n) ∧
      (∀ c ∈ j.closings, c.Empties th) ∧
      j.world.currentKey th = th.ownKey := by
  intro j
  have horderly : j.Orderly th w := orderly_run r i [] w hw hfree
  refine ⟨fun p hp => ?_, ?_, horderly.closing, ?_⟩
  · obtain ⟨hkeyed, hbound⟩ := horderly.point p hp
    have hkey : p.world.currentKey th = p.scopes.headD th.ownKey := by
      rw [currentKey, hbound, List.headD_eq_head?_getD]
    refine ⟨hkey, ?_, fun n hn => ?_⟩
    · rw [current, hkey]
      exact (hkeyed.locate _).registered (number?_locate p.world _)
    · rw [current, hkey]
      exact locate_of_number hn
  · refine horderly.between.imp_of_mem fun hp hq hkeeps key n hn => ?_
    exact ⟨(horderly.point _ hp).1.registered hn,
      (horderly.point _ hq).1.registered (hkeeps key n hn)⟩
  · have hbound : Assoc.get? th j.world.bound = none := horderly.whole.bound.trans hfree
    rw [currentKey, hbound, Option.getD_none]

/-- Another caller opens the session `b` and disposes of it, and then jobs are run. -/
def bustle (i : Interpreter) (w : World) : World :=
  let (g, opened) := w.openSession (.caller 1) "b"
  (opened.dispose g).settle i 3

theorem steady_bustle (i : Interpreter) (w : World) : Steady (.caller 0) w (bustle i w) := by
  have hne : Thread.caller 0 ≠ .caller 1 := by decide
  have hguard : Thread.caller 0 ≠ (w.openSession (.caller 1) "b").1.thread := hne
  have hopen := steady_openSession hne w "b"
  exact (hopen.trans (steady_dispose hguard _)).trans (steady_settle 0 i 3 _)

/-- The session `a` is opened twice, the inner one is left by a panic, and a line is run under the
key of `b` before others use it. -/
def nested (i : Interpreter) : Routine (.caller 0) :=
  .explicit "a"
    (.does (.execute "hello") fun _ _ =>
      .attempt (.explicit "a" (.does (.locate (.named "b")) fun _ _ => .panics) .done) fun _ =>
        .executeAs (.named "b") "hi there"
          (.does (.meanwhile (bustle i) (steady_bustle i)) fun _ _ => .done))
    .done

theorem nested_unwinds :
    let th : Thread := .caller 0
    let i : Interpreter := ⟨.default, .ofEntries Strategy.builtin [], .builtin, []⟩
    let w := World.initial .default 0 1
    let j := (nested i).run i [] w
    let a : SessionKey := .named "a"
    let b : SessionKey := .named "b"
    w.Keyed ∧ Assoc.get? th w.bound = none ∧ j.panicked = false ∧
      j.points.map Point.scopes =
        [[], [a], [a], [a], [a, a], [a, a], [a], [a], [b, a], [b, a], [b, a], [a], [a], []] ∧
      j.closings.map Closing.name = ["a", "a"] ∧ (∀ c ∈ j.closings, c.Empties th) ∧
      (∀ p ∈ j.points, p.world.currentKey th = p.scopes.headD th.ownKey) ∧
      j.world.currentKey th = th.ownKey := by
  intro th i w j a b
  have hw : w.Keyed := keyed_initial _ _ _
  obtain ⟨hpoints, -, hclosings, hend⟩ := scopes_nest i th (nested i) w hw rfl
  refine ⟨hw, rfl, ?_, ?_, ?_, hclosings, fun p hp => (hpoints p hp).1, hend⟩
  · decide +kernel
  · decide +kernel
  · decide +kernel

end CommandShell
