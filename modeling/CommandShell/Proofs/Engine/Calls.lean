import CommandShell.Engine.Pool
import CommandShell.Proofs.Engine.Answering
import CommandShell.Proofs.Registry.Filters
/-!
# How a call goes

A line that is not blank makes one call.  A call asks the filters, then for arguments, and then
goes to its handler.  The thread that makes it is at work in one or more legs: a leg ends with the
record, or where the handler waits, and then others may do what they like before the next.

    splitCommand line = none ↔ line is blank                      (splitCommand_eq_none_iff)
    a call that a filter turns away, or without arguments, is at its end; any other goes on
                  (beginCall_of_rejected, beginCall_of_unparsed, beginCall_of_admitted)
    all of them have asked the filters first, and a handler is logged exactly where its script is
    taken up                                                             (exists_beginCall_eq)
    a leg ends with the record, or with what is left of the script          (runCall_cases)
    a call comes to its record, whatever happens meanwhile    (settles_runCall, exists_legs)
-/

namespace CommandShell

open CommandShell.Text

theorem splitCommand_eq_none_iff (line : String) :
    splitCommand line = none ↔ allBlank line.toList = true := by
  rw [allBlank, List.all_eq_true, ← trimStart_eq_nil_iff]
  unfold splitCommand
  constructor
  · intro h
    split at h
    · assumption
    · split at h <;> cases h
  · intro h
    rw [h]

/-- A call always has a handler to go to. -/
theorem exists_handler_of_find (r : Registry) (name : String) :
    ∃ run, (r.find name).handler = .command run := by
  have hcommand : (r.find name).isCommand = true := by
    unfold Registry.find
    cases h : r.command? name with
    | none => rfl
    | some e => exact (Option.filter_eq_some_iff.1 h).2
  unfold Entry.isCommand Entry.kind at hcommand
  cases h : (r.find name).handler with
  | command run => exact ⟨run, rfl⟩
  | filter check rejection scope => simp [h, Handler.kind] at hcommand
  | start result => simp [h, Handler.kind] at hcommand
  | stop result => simp [h, Handler.kind] at hcommand

/-! ## What a script ends with -/

/-- The results that a script may end with, whatever is replied to its requests. -/
inductive Script.Yields {α : Type} : Script α → α → Prop
  | done (a : α) : Yields (.done a) a
  | request {r : Request} {next : r.Reply → Script α} {a : α} (reply : r.Reply)
      (h : Yields (next reply) a) : Yields (.request r next) a

theorem Script.Yields.of_mapResult {α β : Type} {f : α → β} {s : Script α} {b : β}
    (h : (s.mapResult f).Yields b) : ∃ a, s.Yields a ∧ b = f a := by
  induction s with
  | done a =>
    cases h
    exact ⟨a, .done a, rfl⟩
  | request r next ih =>
    cases h with
    | request reply h =>
      obtain ⟨a, ha, hb⟩ := ih reply h
      exact ⟨a, .request reply ha, hb⟩

namespace World

variable {i : Interpreter} {th : Thread} {w w' : World} {called : Called} {r : Record} {n : Nat}
  {typed rawArgs : String} {arguments : Entry → Except ParseFailure (List Value)}

theorem run_yields {α : Type} {s : Script α} {a : α} (h : s.run i th w = (.finished a, w')) :
    s.Yields a := by
  induction s generalizing w with
  | done b =>
    cases h
    exact .done a
  | request req next ih =>
    rw [Script.run] at h
    cases hanswer : w.answer i th req with
    | none => simp [hanswer] at h
    | some answered =>
      obtain ⟨reply, w₁⟩ := answered
      rw [hanswer] at h
      exact .request reply (ih reply h)

theorem run_yields_of_waiting {α : Type} {s rest : Script α} {a : α}
    (h : s.run i th w = (.waiting rest, w')) (hrest : rest.Yields a) : s.Yields a := by
  induction s generalizing w with
  | done b => cases h
  | request req next ih =>
    rw [Script.run] at h
    cases hanswer : w.answer i th req with
    | none =>
      rw [hanswer] at h
      cases h
      exact hrest
    | some answered =>
      obtain ⟨reply, w₁⟩ := answered
      rw [hanswer] at h
      exact .request reply (ih reply h)

/-! ## The beginning of a call -/

/-- A call that a filter turns away has asked filters and is at its end. -/
theorem beginCall_of_rejected {f : Failure} {call : Call}
    (hcall : w.newCall i n typed rawArgs = call)
    (h : (i.registry.runFilters (w.filterRequest i call)).2 = some f) :
    w.beginCall i n typed rawArgs arguments =
      (⟨call, .done (.error f)⟩, w.log (i.registry.runFilters (w.filterRequest i call)).1) := by
  unfold beginCall
  subst hcall
  simp only [h]

/-- So is one without arguments. -/
theorem beginCall_of_unparsed {cause : ParseFailure} {call : Call}
    (hcall : w.newCall i n typed rawArgs = call)
    (h : (i.registry.runFilters (w.filterRequest i call)).2 = none)
    (hargs : arguments (i.registry.find typed) = .error cause) :
    w.beginCall i n typed rawArgs arguments =
      (⟨call, .done (.error (.parse cause))⟩,
        w.log (i.registry.runFilters (w.filterRequest i call)).1) := by
  unfold beginCall
  subst hcall
  simp only [h, hargs]

/-- Any other call goes on to its handler. -/
theorem beginCall_of_admitted {values : List Value} {call : Call}
    (hcall : w.newCall i n typed rawArgs = call)
    (h : (i.registry.runFilters (w.filterRequest i call)).2 = none)
    (hargs : arguments (i.registry.find typed) = .ok values) :
    w.beginCall i n typed rawArgs arguments =
      (⟨call, handlerScript (i.registry.find typed) ⟨(w.filterRequest i call).command, values⟩⟩,
        (w.log (i.registry.runFilters (w.filterRequest i call)).1).log
          [.invoked call ⟨(w.filterRequest i call).command, values⟩]) := by
  unfold beginCall
  subst hcall
  simp only [h, hargs]

theorem log_log (w : World) (a b : List Event) : (w.log a).log b = w.log (a ++ b) := by
  simp only [log, List.append_assoc]

/-- **The handler of a call is logged exactly where its script is taken up.**  However a call
begins, what its filters are asked is logged; then either it has failed and nothing more is logged,
or it goes on with the script of its handler and the arguments that are logged with it. -/
theorem exists_beginCall_eq (i : Interpreter) (n : Nat) (typed rawArgs : String)
    (arguments : Entry → Except ParseFailure (List Value)) (w : World) :
    ∃ script taken, w.beginCall i n typed rawArgs arguments =
        (⟨w.newCall i n typed rawArgs, script⟩,
          w.log ((i.registry.runFilters
            (w.filterRequest i (w.newCall i n typed rawArgs))).1 ++ taken)) ∧
      ((∃ f, script = .done (.error f) ∧ taken = []) ∨
        ∃ args, script = handlerScript (i.registry.find typed) args ∧
          taken = [.invoked (w.newCall i n typed rawArgs) args]) := by
  cases hfilters : (i.registry.runFilters (w.filterRequest i (w.newCall i n typed rawArgs))).2 with
  | some f =>
    refine ⟨.done (.error f), [], ?_, Or.inl ⟨f, rfl, rfl⟩⟩
    rw [List.append_nil]
    exact beginCall_of_rejected rfl hfilters
  | none =>
    cases hargs : arguments (i.registry.find typed) with
    | error cause =>
      refine ⟨.done (.error (.parse cause)), [], ?_, Or.inl ⟨_, rfl, rfl⟩⟩
      rw [List.append_nil]
      exact beginCall_of_unparsed rfl hfilters hargs
    | ok values =>
      have hbegin := beginCall_of_admitted rfl hfilters hargs
      rw [log_log] at hbegin
      exact ⟨_, _, hbegin, Or.inr ⟨_, rfl, rfl⟩⟩

/-- The text behind the command of a line, with placeholders replaced. -/
def substituted (w : World) (n : Nat) (rest : String) : String × Generator :=
  Line.substitute (w.session n).getVariable rest w.chance

theorem dispatch_of_blank {line : String} (th : Thread) (console : Console)
    (h : allBlank line.toList = true) : w.dispatch i th n line console = (.blank, w) := by
  rw [dispatch, beginLine, (splitCommand_eq_none_iff line).2 h]

theorem beginLine_of_split {line rest : String} (console : Console)
    (h : splitCommand line = some (typed, rest)) :
    w.beginLine i n line console =
      some (beginCall i n typed (w.substituted n rest).1
        (fun e => i.parse e (w.substituted n rest).1 console w.order)
        { w with chance := (w.substituted n rest).2 }) := by
  rw [beginLine, h]
  rfl

theorem dispatch_of_split {line rest : String} (th : Thread) (console : Console)
    (h : splitCommand line = some (typed, rest)) :
    w.dispatch i th n line console =
      let begun := beginCall i n typed (w.substituted n rest).1
        (fun e => i.parse e (w.substituted n rest).1 console w.order)
        { w with chance := (w.substituted n rest).2 }
      begun.2.runCall i th begun.1 := by
  rw [dispatch, beginLine_of_split console h]

/-- A line with a command begins a call and comes to what that comes to. -/
theorem exists_begun {line rest : String} (th : Thread)
    (h : splitCommand line = some (typed, rest)) :
    ∃ inv wa, (w.current th).2.beginLine i (w.current th).1 line .terminal = some (inv, wa) ∧
      w.execute i th line = wa.runCall i th inv :=
  ⟨_, _, beginLine_of_split .terminal h, dispatch_of_split th .terminal h⟩

/-! ## The legs of a call -/

/-- A stretch in which the thread of a call is at work. -/
structure Leg where
  before : World
  after : World

/-- From its first leg a call comes to its record in these legs.  While it waits the world may
become any other, but sessions do not go away. -/
inductive Legs (i : Interpreter) (th : Thread) :
    World → Called → World → List Leg → Record → Prop
  | last (w w' : World) (r : Record) : Legs i th w (.finished r) w' [⟨w, w'⟩] r
  | more {w w' next : World} {inv : Invocation} {legs : List Leg} {r : Record}
      (hn : w'.sessions.sessions.length ≤ next.sessions.sessions.length)
      (h : Legs i th next (next.runCall i th inv).1 (next.runCall i th inv).2 legs r) :
      Legs i th w (.waiting inv) w' (⟨w, w'⟩ :: legs) r

/-- Whether a call can go on in a world. -/
def canGoOn (i : Interpreter) (th : Thread) (inv : Invocation) (w : World) : Bool :=
  match inv.script with
  | .done _ => true
  | .request request _ => (w.answer i th request).isSome

/-- A call comes to its record: it has one, or it waits and comes to its record from every world
in which it can go on. -/
inductive Settles (i : Interpreter) (th : Thread) : Called → Prop
  | finished (r : Record) : Settles i th (.finished r)
  | waiting {inv : Invocation}
      (h : ∀ w, canGoOn i th inv w = true → Settles i th (w.runCall i th inv).1) :
      Settles i th (.waiting inv)

theorem runCall_of_done {call : Call} {outcome : Except Failure Json} (w : World) :
    w.runCall i th ⟨call, .done outcome⟩ =
      (.finished (call.record w.now outcome),
        w.modifySession call.session fun s => s.push (call.record w.now outcome)) := rfl

theorem runCall_of_answer {call : Call} {request : Request} {reply : request.Reply}
    {next : request.Reply → Script (Except Failure Json)}
    (h : w.answer i th request = some (reply, w')) :
    w.runCall i th ⟨call, .request request next⟩ = w'.runCall i th ⟨call, next reply⟩ := by
  simp only [runCall, Script.run, h]
  rcases (next reply).run i th w' with ⟨outcome | rest, w₁⟩ <;> rfl

theorem runCall_of_wait {call : Call} {request : Request}
    {next : request.Reply → Script (Except Failure Json)} (h : w.answer i th request = none) :
    w.runCall i th ⟨call, .request request next⟩ =
      (.waiting ⟨call, .request request next⟩, w) := by
  simp only [runCall, Script.run, h]

theorem settles_runCall (i : Interpreter) (th : Thread) (call : Call)
    (s : Script (Except Failure Json)) (w : World) :
    Settles i th (w.runCall i th ⟨call, s⟩).1 := by
  induction s generalizing w with
  | done outcome => exact .finished _
  | request request next ih =>
    have hgoes (v : World) (hv : (v.answer i th request).isSome = true) :
        Settles i th (v.runCall i th ⟨call, .request request next⟩).1 := by
      obtain ⟨⟨reply, w₁⟩, hanswer⟩ := Option.isSome_iff_exists.1 hv
      rw [runCall_of_answer hanswer]
      exact ih reply w₁
    cases hanswer : w.answer i th request with
    | some answered => exact hgoes w (by rw [hanswer]; rfl)
    | none =>
      rw [runCall_of_wait hanswer]
      exact .waiting fun v hv => hgoes v hv

/-- Opening a gate or letting time pass lets any call go on. -/
theorem exists_canGoOn (i : Interpreter) (th : Thread) (inv : Invocation) (w : World) :
    ∃ next : World, next.sessions = w.sessions ∧ canGoOn i th inv next = true := by
  obtain ⟨call, s⟩ := inv
  cases s with
  | done outcome => exact ⟨w, rfl, rfl⟩
  | request request next =>
    cases hanswer : w.answer i th request with
    | some answered => exact ⟨w, rfl, by simp [canGoOn, hanswer]⟩
    | none =>
      rcases (answer_eq_none_iff i th w request).1 hanswer with ⟨gate, rfl, -⟩ | ⟨moment, rfl, -⟩
      · exact ⟨w.openGate gate, rfl, by simp [canGoOn, answer, openGate]⟩
      · have hcome : moment ≤ max w.now moment := Nat.le_max_right _ _
        exact ⟨w.passTo moment, rfl, Option.isSome_iff_exists.2 ⟨_, if_pos hcome⟩⟩

theorem exists_legs (h : Settles i th called) (w w' : World) :
    ∃ legs r, Legs i th w called w' legs r := by
  induction h generalizing w w' with
  | finished r => exact ⟨_, r, .last w w' r⟩
  | @waiting inv _ ih =>
    obtain ⟨next, hsame, hgo⟩ := exists_canGoOn i th inv w'
    obtain ⟨legs, r, hlegs⟩ := ih next hgo next (next.runCall i th inv).2
    exact ⟨_, r, .more (Nat.le_of_eq (by rw [hsame])) hlegs⟩

/-- Where a first leg began is of no matter to the later ones. -/
theorem Legs.first {legs : List Leg} (h : Legs i th w called w' legs r) :
    ∃ rest, legs = ⟨w, w'⟩ :: rest ∧
      ∀ w₀, Legs i th w₀ called w' (⟨w₀, w'⟩ :: rest) r := by
  cases h with
  | last => exact ⟨[], rfl, fun w₀ => .last w₀ w' r⟩
  | more hn h => exact ⟨_, rfl, fun _ => .more hn h⟩

/-- One leg of a call: it ends with a record, or waits with what is left of its script. -/
theorem runCall_cases (i : Interpreter) (th : Thread) (inv : Invocation) (w : World) :
    (∃ outcome w₁, inv.script.Yields outcome ∧ Quiet w w₁ ∧
      w.runCall i th inv = (.finished (inv.record w₁.now outcome),
        w₁.modifySession inv.session fun s => s.push (inv.record w₁.now outcome))) ∨
    ∃ rest w₁, (∀ outcome, rest.Yields outcome → inv.script.Yields outcome) ∧ Quiet w w₁ ∧
      w.runCall i th inv = (.waiting { inv with script := rest }, w₁) := by
  have hquiet : Quiet w (inv.script.run i th w).2 := quiet_run i th inv.script w
  cases hrun : inv.script.run i th w with
  | mk progress w₁ =>
    rw [hrun] at hquiet
    cases progress with
    | finished outcome =>
      exact Or.inl ⟨outcome, w₁, run_yields hrun, hquiet, by simp only [runCall, hrun, finishCall]⟩
    | waiting rest =>
      exact Or.inr ⟨rest, w₁, fun _ h => run_yields_of_waiting hrun h, hquiet, by
        simp only [runCall, hrun]⟩

end World

end CommandShell
