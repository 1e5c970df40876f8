import CommandShell.Proofs.Engine.Ownership
import CommandShell.Proofs.Parse.Orders
/-!
# Sessions do not interfere

Each operation is made under the key of one session.  What becomes of a session can be told from
the operations under its own key alone: they make of it, one after the other, what they would make
of it if there were no other session.  So it does not matter which operations there are under other
keys, nor, if its handlers do not look at times, when its own operations are made.

An operation is told in what order the literals of its line are converted, if it has some, as
nothing else settles that.  So two runs are compared in which the same orders come about for the
operations of the session, whatever these are, and whatever orders come about for others.

Jobs that handlers submit wait in the queue; to start them is none of the operations.

    performAll i w ops      the world after the operations
    an operation turns the session of its key                              (turned_perform)
    own (performAll i w ops) k = what the operations of k make of own w k  (own_performAll)
    a line of a command with one collection parameter at most does the same in all orders
                                                                    (Action.orderless_line)
    operations under other keys leave no trace                 (other_sessions_leave_no_trace)
-/

namespace CommandShell

open CommandShell.Text

/-- Something that is done in the session of a key. -/
inductive Action where
  | line (key : SessionKey) (text : String)
  | call (key : SessionKey) (name : String) (values : List Value)
  | setVariable (key : SessionKey) (name : String) (value : Json)
  | removeVariable (key : SessionKey) (name : String)
  /-- An explicit session is opened and disposed of at once. -/
  | openAndDispose (name : String)

/-- An action with the time at which it is done, and the thread that does it. -/
structure Operation where
  time : Timestamp
  thread : Thread
  /-- The order in which a table of literals is walked, if there is one. -/
  order : TableOrder
  action : Action

namespace Action

/-- The key of the session in which it is done. -/
def key : Action → SessionKey
  | line key _ | call key _ _ | setVariable key _ _ | removeVariable key _ => key
  | openAndDispose name => .named name

/-- The world after the action was done by a thread. -/
def perform (i : Interpreter) (th : Thread) : Action → World → World
  | line key text, w => (w.executeAs i th key text).2
  | call key name values, w => (w.runAs th key (World.invoke i th name values)).2
  | setVariable key name value, w =>
    let (n, w) := w.locate key
    w.modifySession n fun s => s.setVariable name value
  | removeVariable key name, w =>
    let (n, w) := w.locate key
    w.modifySession n fun s => s.removeVariable name
  | openAndDispose name, w =>
    let (g, w) := w.openSession th name
    w.dispose g

/-- What the action makes of its session by itself. -/
def act (i : Interpreter) (a : Around) (order : TableOrder) (g : Generator) :
    Action → Session → Session
  | line _ text, s => s.line i a order g text
  | call _ name values, s => s.call i a name (valuesText values) fun _ => .ok values
  | setVariable _ name value, s => s.setVariable name value
  | removeVariable _ name, s => s.removeVariable name
  | openAndDispose _, s => s.reset

/-- Every script that the action may lead to is one of those. -/
def Runs (i : Interpreter) (those : Script (Except Failure Json) → Prop) : Action → Prop
  | line _ text => ∀ typed rest, splitCommand text = some (typed, rest) →
      ∀ rawArgs order values, i.parse (i.registry.find typed) rawArgs .terminal order = .ok values →
        those (i.script typed values)
  | call _ name values => those (i.script name values)
  | _ => True

/-- There are no random placeholders in the arguments of a line. -/
def Chanceless : Action → Prop
  | line _ text => ∀ typed rest, splitCommand text = some (typed, rest) → Line.Chanceless rest
  | _ => True

/-- The arguments of a line are read alike in all orders. -/
def Orderless (i : Interpreter) : Action → Prop
  | line _ text => ∀ typed rest, splitCommand text = some (typed, rest) → ∀ rawArgs order order',
      i.parse (i.registry.find typed) rawArgs .terminal order =
        i.parse (i.registry.find typed) rawArgs .terminal order'
  | _ => True

/-- A line can only lead to the scripts of its command. -/
theorem runs_line {i : Interpreter} (key : SessionKey) {text typed rest : String}
    (hsplit : splitCommand text = some (typed, rest))
    {those : Script (Except Failure Json) → Prop} (h : ∀ values, those (i.script typed values)) :
    (line key text).Runs i those := by
  intro typed' rest' hsplit' rawArgs order values _
  rw [hsplit] at hsplit'
  cases hsplit'
  exact h values

/-- So it is if the command has a built-in strategy and one collection parameter at most. -/
theorem orderless_line {i : Interpreter} (key : SessionKey) {text typed rest : String}
    (hsplit : splitCommand text = some (typed, rest)) {p : String × Strategy}
    (hbuiltin : p ∈ Strategy.builtin)
    (hstrategy : i.registry.strategyOf? (i.registry.find typed) = some p.2)
    (hlone : ((i.registry.find typed).parameters.filter fun p => p.type.isCollection).length ≤ 1) :
    (line key text).Orderless i := by
  intro typed' rest' hsplit' rawArgs order order'
  rw [hsplit] at hsplit'
  cases hsplit'
  unfold Interpreter.parse
  rw [hstrategy]
  exact Strategy.builtin_parse_of_lone hbuiltin hlone rawArgs order order'

theorem act_timeless {i : Interpreter} {action : Action} {a b : Around} {s t : Session}
    (h : action.Runs i Script.Timeless) (hs : s.timeless = t.timeless)
    (ha : a.timeless = b.timeless) (order : TableOrder) (g : Generator) :
    (action.act i a order g s).timeless = (action.act i b order g t).timeless := by
  cases action with
  | line key text =>
    exact Session.line_timeless hs ha fun typed rest hsplit rawArgs =>
      h typed rest hsplit rawArgs order
  | call key name values =>
    refine Session.call_timeless hs ha fun found hfound => ?_
    obtain rfl := Except.ok.inj hfound
    exact h
  | setVariable key name value => exact congrArg (·.setVariable name value) hs
  | removeVariable key name => exact congrArg (·.removeVariable name) hs
  | openAndDispose name =>
    rw [act, act, Session.reset_timeless, Session.reset_timeless, hs]

theorem act_of_chanceless {action : Action} (h : action.Chanceless) (i : Interpreter) (a : Around)
    (order : TableOrder) (g g' : Generator) (s : Session) :
    action.act i a order g s = action.act i a order g' s := by
  cases action with
  | line key text => exact Session.line_of_chanceless h order g g'
  | _ => rfl

theorem act_of_orderless {i : Interpreter} {action : Action} (h : action.Orderless i) (a : Around)
    (order order' : TableOrder) (g : Generator) (s : Session) :
    action.act i a order g s = action.act i a order' g s := by
  cases action with
  | line key text =>
    exact Session.line_of_orderless (fun typed rest hsplit rawArgs =>
      h typed rest hsplit rawArgs order order') g
  | _ => rfl

end Action

namespace World

def atTime (w : World) (time : Timestamp) : World := { w with now := time }

/-- The world after an operation. -/
def perform (i : Interpreter) (w : World) (op : Operation) : World :=
  op.action.perform i op.thread ((w.atTime op.time).inOrder op.order)

/-- The world after some operations, one after the other. -/
def performAll (i : Interpreter) (w : World) (ops : List Operation) : World :=
  ops.foldl (perform i) w

variable {w : World} {i : Interpreter} {th : Thread} {key : SessionKey} {s : Session}

theorem currentKey_bind (w : World) (th : Thread) (key : SessionKey) :
    (w.bind th (some key)).currentKey th = key := by
  rw [currentKey, bind, Assoc.get?_put_self, Option.getD_some]

/-- Binding a thread changes no session. -/
theorem Turned.bind {w' : World} (h : Turned key s w w') (th : Thread)
    (bound : Option SessionKey) : Turned key s w (w'.bind th bound) := by
  cases bound <;> exact h.same rfl rfl

theorem turned_runAs {α : Type} {work : World → α × World} (hw : w.Keyed)
    (h : Turned key s (w.bind th (some key)) (work (w.bind th (some key))).2) :
    Turned key s w (w.runAs th key work).2 :=
  (((turned_of_same key hw rfl rfl).bind th (some key)).trans h).bind th _

/-- **An action turns the session of its key, and no other.** -/
theorem turned_action (hw : w.Keyed) {action : Action}
    (h : action.Runs i (·.PrintsOn (· = .terminal))) :
    Turned action.key (action.act i w.around w.order w.chance (w.own action.key)) w
      (action.perform i th w) := by
  cases action with
  | line key text =>
    have hrun := execute_own (w := w.bind th (some key)) hw (currentKey_bind w th key)
      fun typed rest hsplit rawArgs => h typed rest hsplit rawArgs w.order
    exact turned_runAs hw hrun
  | call key name values =>
    have hrun := invoke_own (w := w.bind th (some key)) hw (currentKey_bind w th key) h
    exact turned_runAs hw hrun
  | setVariable key name value =>
    exact turned_change_of_key hw key (f := fun s => s.setVariable name value) fun _ => rfl
  | removeVariable key name =>
    exact turned_change_of_key hw key (f := fun s => s.removeVariable name) fun _ => rfl
  | openAndDispose name =>
    -- The thread is bound between the two halves, which is no matter of sessions.
    have hopen := (turned_locate hw (.named name) (.named name)).bind th (some (.named name))
    have hreset := turned_modifySession hopen.keyed (number?_locate w (.named name))
      (f := Session.reset) fun _ => rfl
    rw [hopen.self] at hreset
    exact (hopen.trans hreset).bind th _

/-- So does an operation, which is an action at its time and in its order. -/
theorem turned_perform (hw : w.Keyed) {op : Operation}
    (h : op.action.Runs i (·.PrintsOn (· = .terminal))) :
    Turned op.action.key
      (op.action.act i (w.around.atTime op.time) op.order w.chance (w.own op.action.key))
      ((w.atTime op.time).inOrder op.order) (w.perform i op) :=
  turned_action (w := (w.atTime op.time).inOrder op.order) hw h

/-- **The session of a key is what the operations under that key make of it**, whatever else is
done. -/
theorem own_performAll (g : Generator) {ops : List Operation} (hw : w.Keyed)
    (h : ∀ op ∈ ops, op.action.Runs i (·.PrintsOn (· = .terminal)))
    (hchance : ∀ op ∈ ops, op.action.key = key → op.action.Chanceless) :
    (w.performAll i ops).own key =
      (ops.filter fun op => op.action.key = key).foldl
        (fun s op => op.action.act i (w.around.atTime op.time) op.order g s) (w.own key) := by
  induction ops generalizing w with
  | nil => rfl
  | cons op ops ih =>
    have hturned := turned_perform hw (h op List.mem_cons_self)
    have haround (t : Timestamp) : (w.perform i op).around.atTime t = w.around.atTime t := by
      rw [hturned.around]
      rfl
    have hrest := ih hturned.keyed (fun other hother => h other (List.mem_cons_of_mem op hother))
      fun other hother => hchance other (List.mem_cons_of_mem op hother)
    simp only [haround] at hrest
    refine hrest.trans ?_
    by_cases hkey : op.action.key = key
    · subst hkey
      rw [List.filter_cons_of_pos (by simp), List.foldl_cons, hturned.self,
        Action.act_of_chanceless (hchance op List.mem_cons_self rfl) i _ op.order w.chance g]
    · rw [List.filter_cons_of_neg (by simpa using hkey), hturned.others key (Ne.symm hkey)]
      rfl

end World

/-- What operations make of the empty session of a key, if there is no other session. -/
def Interpreter.alone (i : Interpreter) (key : SessionKey) (ops : List Operation) : Session :=
  ops.foldl (fun s op => op.action.act i ⟨op.time, false, []⟩ op.order (.seed 0) s)
    (.empty key i.settings.historyLimit.toNat)

/-- Two operations are one action, and in one order if the order is of any matter to it. -/
def Operation.Same (i : Interpreter) (op op' : Operation) : Prop :=
  op'.action = op.action ∧ (op'.order = op.order ∨ op.action.Orderless i)

section

variable {i : Interpreter} {key : SessionKey} {ops ops' : List Operation}

theorem own_eq_alone (now : Timestamp) (seed : Nat)
    (h : ∀ op ∈ ops, op.action.Runs i (·.PrintsOn (· = .terminal)))
    (hchance : ∀ op ∈ ops, op.action.key = key → op.action.Chanceless) :
    ((World.initial i.settings now seed).performAll i ops).own key =
      i.alone key (ops.filter fun op => op.action.key = key) :=
  World.own_performAll (.seed 0) (World.keyed_initial i.settings now seed) h hchance

/-- The same operations make sessions alike, whenever they are done. -/
theorem alone_timeless (hsame : List.Forall₂ (Operation.Same i) ops ops')
    (h : ∀ op ∈ ops, op.action.Runs i Script.Timeless) :
    (i.alone key ops').timeless = (i.alone key ops).timeless := by
  let act (s : Session) (op : Operation) : Session :=
    op.action.act i ⟨op.time, false, []⟩ op.order (.seed 0) s
  suffices hfold : ∀ s t : Session, s.timeless = t.timeless →
      (ops'.foldl act s).timeless = (ops.foldl act t).timeless from hfold _ _ rfl
  induction hsame with
  | nil => exact fun s t hs => hs
  | @cons op op' ops ops' hop _ ih =>
    intro s t hs
    obtain ⟨haction, horder⟩ := hop
    have ha : (⟨op'.time, false, []⟩ : Around).timeless =
        (⟨op.time, false, []⟩ : Around).timeless := rfl
    refine ih (fun other hother => h other (List.mem_cons_of_mem op hother)) _ _ ?_
    unfold act
    rw [haction]
    rcases horder with horder | horderless
    · rw [horder]
      exact Action.act_timeless (h op List.mem_cons_self) hs ha _ _
    · rw [Action.act_of_orderless horderless _ op'.order op.order]
      exact Action.act_timeless (h op List.mem_cons_self) hs ha _ _

/-- What holds of some actions holds of the actions of the same operations. -/
theorem forall_action_of_same (those : Action → Prop)
    (hsame : List.Forall₂ (Operation.Same i) ops ops') (h : ∀ op ∈ ops, those op.action) :
    ∀ op ∈ ops', those op.action := by
  induction hsame with
  | nil => exact List.forall_mem_nil _
  | @cons op op' ops ops' hop _ ih =>
    obtain ⟨haction, -⟩ := hop
    refine List.forall_mem_cons.2 ⟨haction ▸ h op List.mem_cons_self, ih fun other hother => ?_⟩
    exact h other (List.mem_cons_of_mem op hother)

end

open World in
/-- **Sessions do not interfere.**  Where handlers print on the terminal only, and the lines under
a key have no random placeholders, the session of that key is the same without the operations
under all other keys: its variables, its history and its tasks.  If besides the handlers do not
look at times, this is so whenever the operations are made and by whichever threads, times
aside.

Whatever orders the literals of lines are converted in, the session is the same without the others
if those of its own lines are converted in the same orders.  Where a line is read alike in all
orders, as with one collection parameter at most, they need not be the same. -/
theorem other_sessions_leave_no_trace (i : Interpreter) (key : SessionKey) (now now' : Timestamp)
    (seed seed' : Nat) (ops : List Operation)
    (h : ∀ op ∈ ops, op.action.Runs i (·.PrintsOn (· = .terminal)))
    (hchance : ∀ op ∈ ops, op.action.key = key → op.action.Chanceless) :
    let w := (initial i.settings now seed).performAll i ops
    let own := ops.filter fun op => op.action.key = key
    ((initial i.settings now' seed').performAll i own).own key = w.own key ∧
      ((∀ op ∈ own, op.action.Runs i Script.Timeless) →
        ∀ own' : List Operation, List.Forall₂ (Operation.Same i) own own' →
          let w' := (initial i.settings now' seed').performAll i own'
          (w'.own key).vars = (w.own key).vars ∧
            (w'.own key).history.map Record.timeless = (w.own key).history.map Record.timeless ∧
            (w'.own key).tasks.timeless = (w.own key).tasks.timeless) := by
  intro w own
  have hown (op : Operation) (hop : op ∈ own) : op ∈ ops ∧ op.action.key = key := by
    obtain ⟨hmem, hkey⟩ := List.mem_filter.1 hop
    exact ⟨hmem, of_decide_eq_true hkey⟩
  have hw : w.own key = i.alone key own := own_eq_alone now seed h hchance
  -- Operations under this key only are not filtered once more.
  have halone (own' : List Operation) (hsame : List.Forall₂ (Operation.Same i) own own') :
      ((initial i.settings now' seed').performAll i own').own key = i.alone key own' := by
    have hkey := forall_action_of_same (·.key = key) hsame fun op hop => (hown op hop).2
    have hconfined := forall_action_of_same (·.Runs i (·.PrintsOn (· = .terminal))) hsame
      fun op hop => h op (hown op hop).1
    have hsettled := forall_action_of_same Action.Chanceless hsame
      fun op hop => hchance op (hown op hop).1 (hown op hop).2
    rw [own_eq_alone now' seed' hconfined fun op hop _ => hsettled op hop,
      List.filter_eq_self.2 fun op hop => decide_eq_true (hkey op hop)]
  have hsame : List.Forall₂ (Operation.Same i) own own :=
    List.forall₂_same.2 fun op _ => ⟨rfl, Or.inl rfl⟩
  refine ⟨(halone own hsame).trans hw.symm, fun htimeless own' hsame => ?_⟩
  have halike : (((initial i.settings now' seed').performAll i own').own key).timeless =
      (w.own key).timeless := by
    rw [hw, halone own' hsame]
    exact alone_timeless hsame htimeless
  have hvars := congrArg Session.vars halike
  have hhistory := congrArg Session.history halike
  have htasks := congrArg Session.tasks halike
  exact ⟨hvars, hhistory, htasks⟩

/-- A command that keeps in a variable how many calls the session has seen. -/
def tally : Entry :=
  Entry.ofHandler "tally" (.command fun _ =>
    .request (.history .all) fun (found : List Json) =>
    .request (.setVariable "calls" (Json.ofNat (found.length + 1))) fun _ =>
    .done (.answered .null))

open World in
theorem two_tallies_leave_no_trace :
    let i : Interpreter := ⟨.default, .ofEntries Strategy.builtin [tally], .builtin, []⟩
    let a := SessionKey.named "a"
    let o := TableOrder.asFilled
    let first : Operation := ⟨5, .caller 0, o, .line a "tally up"⟩
    let last : Operation := ⟨9, .caller 1, o, .call a "tally" []⟩
    let others : List Operation :=
      [⟨6, .caller 0, o, .line (.named "b") "tally ${calls} ${rand.int}"⟩,
        ⟨7, .caller 1, o, .setVariable (.named "b") "calls" .null⟩,
        ⟨8, .caller 1, o, .openAndDispose "b"⟩]
    let w := (initial i.settings 0 1).performAll i (first :: others ++ [last])
    let w' := (initial i.settings 0 2).performAll i
      [{ first with time := 3, order := .first 0 }, { last with time := 4 }]
    (w'.own a).vars = (w.own a).vars ∧
      (w'.own a).history.map Record.timeless = (w.own a).history.map Record.timeless ∧
      (w'.own a).tasks.timeless = (w.own a).tasks.timeless ∧
      (w.own a).vars.map (fun e => (e.1, e.2.compactText)) = [("calls", ['2'])] ∧
      (w.own a).history.map Record.rawArgs = ["up", ""] := by
  intro i a o first last others w w'
  have hscript (values : List Value) : i.script "tally" values =
      .request (.history .all) fun (found : List Json) =>
      .request (.setVariable "calls" (Json.ofNat (found.length + 1))) fun _ =>
      .done (.ok .null) := rfl
  have hprints (values : List Value) : (i.script "tally" values).PrintsOn (· = .terminal) := by
    rw [hscript]
    exact .request (by simp) fun _ => .request (by simp) fun _ => .done _
  have htimeless (values : List Value) : (i.script "tally" values).Timeless := by
    have hlength (records : List Record) :
        (HistoryQuery.all.run records).length = (records.map Record.timeless).length := by
      simp [HistoryQuery.run, HistoryQuery.all, HistoryQuery.wants]
    rw [hscript]
    refine .history fun records records' hrecords => ?_
    rw [hlength, hlength, hrecords]
    exact .plain trivial fun _ => .done _
  have hchanceless : (Action.line a "tally up").Chanceless := by
    intro typed rest hsplit e he
    have hcut : splitCommand "tally up" = some ("tally", "up") := rfl
    rw [hcut] at hsplit
    cases hsplit
    have hpieces : Line.pieces "up".toList = [.plain "up".toList] := rfl
    rw [hpieces] at he
    simp at he
  have hconfined : ∀ op ∈ first :: others ++ [last],
      op.action.Runs i (·.PrintsOn (· = .terminal)) :=
    List.forall_mem_cons.2 ⟨Action.runs_line a rfl hprints, List.forall_mem_cons.2
      ⟨Action.runs_line (.named "b") rfl hprints, List.forall_mem_cons.2 ⟨trivial,
        List.forall_mem_cons.2 ⟨trivial, List.forall_mem_singleton.2 (hprints [])⟩⟩⟩⟩
  have hchance : ∀ op ∈ first :: others ++ [last], op.action.key = a → op.action.Chanceless :=
    List.forall_mem_cons.2 ⟨fun _ => hchanceless, List.forall_mem_cons.2
      ⟨fun hkey => absurd hkey (by decide), List.forall_mem_cons.2 ⟨fun _ => trivial,
        List.forall_mem_cons.2 ⟨fun _ => trivial, List.forall_mem_singleton.2 fun _ => trivial⟩⟩⟩⟩
  have hown : ∀ op ∈ [first, last], op.action.Runs i Script.Timeless :=
    List.forall_mem_cons.2 ⟨Action.runs_line a rfl htimeless,
      List.forall_mem_singleton.2 (htimeless [])⟩
  have horderless : first.action.Orderless i :=
    Action.orderless_line a rfl (p := (Strategy.defaultName, .flags)) List.mem_cons_self rfl
      (by decide)
  obtain ⟨-, halike⟩ := other_sessions_leave_no_trace i a 0 0 1 2 _ hconfined hchance
  obtain ⟨hvars, hhistory, htasks⟩ := halike hown
    [{ first with time := 3, order := .first 0 }, { last with time := 4 }]
    (.cons ⟨rfl, Or.inr horderless⟩ (.cons ⟨rfl, Or.inl rfl⟩ .nil))
  exact ⟨hvars, hhistory, htasks, by decide +kernel, by decide +kernel⟩

end CommandShell
