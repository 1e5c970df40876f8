import CommandShell.Proofs.Engine.Determined
import CommandShell.Proofs.Parse.Orders
import CommandShell.Proofs.Registry.Names
import CommandShell.Shell.Commands
/-!
# What the commands of the shell do

No filter stands in the way of a line of the shell.  Its command prints on the console of its call
and on no other, and all but four commands are determined by their arguments and the variables:
they print and answer the same wherever they run.

    callScript i e typed raw console       what a call goes on with, once its arguments are read
    arguments are read alike in all orders                                     (parse_orderless)
    only `echo` is told of its console                                  (callScript_of_silent)
    every line keeps to its console                                      (printsOn_beginLine)
    which commands the variables determine                                 (gives_callScript)
-/

namespace CommandShell

/-- What a call goes on with, once the filters have let it pass, if its literals are converted in
the order in which they were bound. -/
def callScript (i : Interpreter) (e : Entry) (command raw : String) (console : Console) :
    Script (Except Failure Json) :=
  match i.parse e raw console .asFilled with
  | .error cause => .done (.error (.parse cause))
  | .ok values => handlerScript e ⟨command, values⟩

/-- A command without ambient parameters is not told of its console. -/
theorem callScript_of_silent {i : Interpreter} {e : Entry}
    (hi : i.registry.strategies = Strategy.builtin)
    (he : ∀ p ∈ e.parameters, p.type.isAmbient = false) (command raw : String)
    (console console' : Console) :
    callScript i e command raw console = callScript i e command raw console' := by
  have hparse : i.parse e raw console .asFilled = i.parse e raw console' .asFilled := by
    unfold Interpreter.parse
    cases hs : i.registry.strategyOf? e with
    | none => rfl
    | some s =>
      have hmem : (e.strategy, s) ∈ Strategy.builtin := by
        rw [← hi]
        exact Assoc.mem_of_get? hs
      exact Strategy.builtin_parse_of_presets hmem (fun p hp =>
        (presetFor_of_not_ambient (he p hp) _).trans
          (presetFor_of_not_ambient (he p hp) _).symm) raw
  rw [callScript, hparse, callScript]

/-! ## Scripts of handlers -/

section

variable {α β : Type} {ok : Console → Prop} {vars : List (String × Json)}
  {known : List CommandInfo}

theorem Script.PrintsOn.mapResult {s : Script α} (f : α → β) (h : s.PrintsOn ok) :
    (s.mapResult f).PrintsOn ok := by
  induction h with
  | done a => exact .done (f a)
  | request hprint _ ih => exact .request hprint ih

theorem Script.PrintsOn.mono {ok' : Console → Prop} {s : Script α} (h : s.PrintsOn ok)
    (hle : ∀ console, ok console → ok' console) : s.PrintsOn ok' := by
  induction h with
  | done a => exact .done a
  | request hprint _ ih => exact .request (fun console text hr => hle _ (hprint console text hr)) ih

theorem printsOn_withArgument {a : Except ArgumentError α} {go : α → Script Outcome}
    (h : ∀ a, (go a).PrintsOn ok) : (withArgument a go).PrintsOn ok := by
  cases a with
  | ok a => exact h a
  | error e => exact .done _

theorem printsOn_ask {r : Request} {next : r.Reply → Script α}
    (hprint : ∀ console text, r ≠ .print console text) (h : ∀ reply, (next reply).PrintsOn ok) :
    ((Script.ask r).bind next).PrintsOn ok :=
  .request (fun console text hr => absurd hr (hprint console text)) h

/-- The variables determine what the script ends with, and it prints nothing. -/
def Script.Reads (vars : List (String × Json)) (known : List CommandInfo) (s : Script α) : Prop :=
  ∃ a, ∀ console, s.Gives vars known console "" a

theorem Script.Reads.mapResult {s : Script α} (f : α → β) (h : s.Reads vars known) :
    (s.mapResult f).Reads vars known := by
  obtain ⟨a, h⟩ := h
  exact ⟨f a, fun console => (h console).mapResult f⟩

theorem reads_done (a : α) : (Script.done a).Reads vars known := ⟨a, fun _ => .done a⟩

theorem reads_withArgument {a : Except ArgumentError α} {go : α → Script Outcome}
    (h : ∀ a, (go a).Reads vars known) : (withArgument a go).Reads vars known := by
  cases a with
  | ok a => exact h a
  | error e => exact reads_done _

theorem reads_told {r : Request} {reply : r.Reply} {next : r.Reply → Script α}
    (hr : Told vars known r reply) (h : (next reply).Reads vars known) :
    ((Script.ask r).bind next).Reads vars known := by
  obtain ⟨a, h⟩ := h
  exact ⟨a, fun console => .told hr (h console)⟩

end

namespace Shell

/-! ## The registry of the shell -/

variable {settings : Settings} {e : Entry} {typed : String}

theorem mem_entries_of_entry {name : String} (h : registry.entry? name = some e) : e ∈ entries := by
  rw [registry, Registry.entry?_ofEntries] at h
  exact List.mem_of_mem_filter (List.mem_reverse.1 (List.mem_of_find?_eq_some h))

theorem mem_entries_of_command (h : registry.command? typed = some e) :
    e ∈ entries ∧ e.isCommand = true := by
  obtain ⟨hlookup, hcommand⟩ := Registry.command?_eq_some_iff.1 h
  exact ⟨mem_entries_of_entry hlookup, hcommand⟩

/-- What a command is called by is its name or an alias, and holds no dollar sign. -/
theorem dollar_not_mem_of_command (h : registry.command? typed = some e) :
    '$' ∉ typed.toList := by
  have hall : ∀ d ∈ entries, ∀ name ∈ d.name :: d.aliases, '$' ∉ name.toList := by decide +kernel
  have hlookup := (Registry.command?_eq_some_iff.1 h).1
  cases halias : Assoc.get? typed registry.aliases with
  | none =>
    rw [Registry.lookup, halias, Option.getD_none] at hlookup
    rw [← Registry.name_of_entry hlookup]
    exact hall e (mem_entries_of_entry hlookup) _ List.mem_cons_self
  | some target =>
    obtain ⟨d, hlast, -⟩ := (Registry.alias_ofEntries_iff _ _ _ _).1 halias
    have hd : d ∈ entries :=
      List.mem_of_mem_filter (List.mem_reverse.1 (List.mem_of_find?_eq_some hlast))
    exact hall d hd _ (List.mem_cons_of_mem _ (Registry.mem_aliases_of_lastDeclaring hlast))

/-- The shell has no filters. -/
theorem runFilters_eq (request : FilterRequest) : registry.runFilters request = ([], none) := by
  have hkinds : ∀ e ∈ entries, e.kind ≠ .filter := by decide +kernel
  have hnone : registry.filterChain request.command = [] := by
    refine List.eq_nil_iff_forall_not_mem.2 fun e he => ?_
    obtain ⟨hmem, hcovers⟩ := (Registry.mem_filterChain_iff _ _ _).1 he
    obtain ⟨check, rejection, scope, hhandler, -⟩ := (Registry.covers_iff _ _).1 hcovers
    have hentry := (Registry.coherent_ofEntries Strategy.builtin entries).entry?_of_mem hmem
    refine hkinds e (mem_entries_of_entry hentry) ?_
    rw [Entry.kind, hhandler]
    rfl
  rw [Registry.runFilters, hnone]
  rfl

theorem strategies_registry : registry.strategies = Strategy.builtin :=
  Registry.strategies_ofEntries _ _

theorem strategyOf?_eq (settings : Settings) (e : Entry) :
    (interpreter settings).registry.strategyOf? e = Assoc.get? e.strategy Strategy.builtin := by
  rw [Registry.strategyOf?, interpreter, strategies_registry]

/-- No command of the shell has two collection parameters, so none is a matter of the order. -/
theorem parse_orderless (settings : Settings) (typed raw : String) (console : Console)
    (o o' : TableOrder) :
    (interpreter settings).parse (registry.find typed) raw console o =
      (interpreter settings).parse (registry.find typed) raw console o' := by
  have hall : ∀ e ∈ entries, (e.parameters.filter fun p => p.type.isCollection).length ≤ 1 := by
    decide +kernel
  have hlone : ((registry.find typed).parameters.filter (·.type.isCollection)).length ≤ 1 := by
    rw [Registry.find]
    cases h : registry.command? typed with
    | none => exact Nat.zero_le 1
    | some e => exact hall e (mem_entries_of_command h).1
  rw [Interpreter.parse, Interpreter.parse, strategyOf?_eq]
  cases hs : Assoc.get? (registry.find typed).strategy Strategy.builtin with
  | none => rfl
  | some s => exact Strategy.builtin_parse_of_lone (Assoc.mem_of_get? hs) hlone raw o o'

/-- A call of the shell goes on with the script of its command. -/
theorem invocation_of_beginLine {n : Nat} {line rest : String} {console : Console} {w w' : World}
    {inv : Invocation} (hsplit : splitCommand line = some (typed, rest))
    (h : w.beginLine (interpreter settings) n line console = some (inv, w')) :
    inv.typed = typed ∧ inv.rawArgs = (w.substituted n rest).1 ∧
      inv.script = callScript (interpreter settings) (registry.find typed)
        (registry.canonicalName typed) (w.substituted n rest).1 console := by
  rw [World.beginLine_of_split console hsplit] at h
  have hbegin := Option.some.inj h
  have hallowed (request : FilterRequest) :
      ((interpreter settings).registry.runFilters request).2 = none :=
    congrArg Prod.snd (runFilters_eq request)
  have horder := parse_orderless settings typed (w.substituted n rest).1 console .asFilled w.order
  cases hargs : (interpreter settings).parse (registry.find typed) (w.substituted n rest).1
      console w.order with
  | error cause =>
    rw [World.beginCall_of_unparsed rfl (hallowed _) hargs] at hbegin
    cases hbegin
    exact ⟨rfl, rfl, by rw [callScript, horder, hargs]⟩
  | ok values =>
    rw [World.beginCall_of_admitted rfl (hallowed _) hargs] at hbegin
    cases hbegin
    exact ⟨rfl, rfl, by rw [callScript, horder, hargs]; rfl⟩

/-! ## Consoles -/

/-- Of all commands only `echo` asks for its console. -/
theorem silent_of_ne_echo (he : e ∈ entries) (hname : e.name ≠ "echo") :
    ∀ p ∈ e.parameters, p.type.isAmbient = false := by
  have hall : ∀ e ∈ entries, e.name ≠ "echo" → ∀ p ∈ e.parameters, p.type.isAmbient = false := by
    decide +kernel
  exact hall e he hname

theorem eq_echo (he : e ∈ entries) (hname : e.name = "echo") : e = echo := by
  have hnames : (entries.map Entry.name).Nodup := by decide +kernel
  exact List.inj_on_of_nodup_map hnames he List.mem_cons_self hname

theorem callScript_echo (command raw : String) (console : Console) :
    callScript (interpreter settings) echo command raw console =
      handlerScript echo ⟨command, [.console console, .str raw]⟩ := by
  have hparse : (interpreter settings).parse echo raw console .asFilled =
      .ok [.console console, .str raw] := by
    have hstrategy : (interpreter settings).registry.strategyOf? echo = some Strategy.raw :=
      strategyOf?_eq settings echo
    rw [Interpreter.parse, hstrategy]
    rfl
  rw [callScript, hparse]

theorem handlerScript_printsOn {ok : Console → Prop} (he : e ∈ entries) (hname : e.name ≠ "echo")
    (args : Arguments) : (handlerScript e args).PrintsOn ok := by
  simp only [entries, List.mem_cons, List.not_mem_nil, or_false] at he
  rcases he with rfl | rfl | rfl | rfl | rfl | rfl | rfl | rfl | rfl | rfl | rfl | rfl | rfl | rfl
  case inl => exact absurd rfl hname
  -- The start of the shell is no command; it comes last.
  case inr.inr.inr.inr.inr.inr.inr.inr.inr.inr.inr.inr.inr => exact .done _
  all_goals refine Script.PrintsOn.mapResult _ ?_
  · refine printsOn_withArgument fun left => printsOn_withArgument fun right => ?_
    dsimp only
    split <;> exact .done _
  · exact printsOn_withArgument fun values => .done _
  · refine printsOn_withArgument fun millis => ?_
    split
    · exact .done _
    · exact printsOn_ask (by simp) fun now => printsOn_ask (by simp) fun _ => .done _
  · exact printsOn_withArgument fun name => printsOn_withArgument fun text =>
      printsOn_ask (by simp) fun _ => .done _
  · refine printsOn_withArgument fun name => printsOn_ask (by simp) fun found => ?_
    cases found <;> exact .done _
  · exact printsOn_ask (by simp) fun found => .done _
  · exact printsOn_withArgument fun limit => printsOn_withArgument fun name =>
      printsOn_ask (by simp) fun found => .done _
  · refine printsOn_withArgument fun text => ?_
    split
    · exact .done _
    · refine printsOn_ask (by simp) fun submitted => ?_
      cases submitted <;> exact .done _
  · refine printsOn_withArgument fun clear => printsOn_withArgument fun onlyDone => ?_
    split <;> exact printsOn_ask (by simp) fun _ => .done _
  · refine printsOn_withArgument fun name => printsOn_withArgument fun last =>
      printsOn_ask (by simp) fun found => ?_
    cases found <;> exact .done _
  · exact printsOn_ask (by simp) fun found => .done _
  · exact printsOn_ask (by simp) fun _ => .done _

/-- A call of the shell prints on its console and on no other. -/
theorem callScript_printsOn (typed command raw : String) (console : Console) :
    (callScript (interpreter settings) (registry.find typed) command raw console).PrintsOn
      (· = console) := by
  cases h : registry.command? typed with
  | none =>
    rw [Registry.find, h]
    unfold callScript
    split <;> exact .done _
  | some e =>
    rw [Registry.find, h, Option.getD_some]
    obtain ⟨he, -⟩ := mem_entries_of_command h
    by_cases hname : e.name = "echo"
    · obtain rfl := eq_echo he hname
      rw [callScript_echo]
      exact .request (fun other text hr => by cases hr; rfl) fun _ => .done _
    · unfold callScript
      split
      · exact .done _
      · exact handlerScript_printsOn he hname _

theorem printsOn_beginLine {n : Nat} {line : String} {console : Console} {w w' : World}
    {inv : Invocation}
    (h : w.beginLine (interpreter settings) n line console = some (inv, w')) :
    inv.script.PrintsOn (· = console) := by
  cases hsplit : splitCommand line with
  | none =>
    rw [World.beginLine, hsplit] at h
    cases h
  | some cut =>
    rw [(invocation_of_beginLine hsplit h).2.2]
    exact callScript_printsOn _ _ _ _

/-! ## What the variables determine -/

variable {vars : List (String × Json)} {known : List CommandInfo}

/-- The commands that look at more than their arguments and the variables. -/
def worldly : List String := ["recent", "tasks", "log", "bg"]

theorem handlerScript_reads (he : e ∈ entries) (hcommand : e.isCommand = true)
    (hname : e.name ≠ "echo") (hreads : e.name ∉ worldly) (args : Arguments) :
    (handlerScript e args).Reads vars known := by
  simp only [entries, List.mem_cons, List.not_mem_nil, or_false] at he
  rcases he with rfl | rfl | rfl | rfl | rfl | rfl | rfl | rfl | rfl | rfl | rfl | rfl | rfl | rfl
  · exact absurd rfl hname
  · refine Script.Reads.mapResult _ ?_
    refine reads_withArgument fun left => reads_withArgument fun right => ?_
    dsimp only
    split <;> exact reads_done _
  · exact Script.Reads.mapResult _ (reads_withArgument fun values => reads_done _)
  · refine Script.Reads.mapResult _ (reads_withArgument fun millis => ?_)
    split
    · exact reads_done _
    · exact ⟨_, fun console => .clock fun now => .sleepUntil fun _ => rfl⟩
  · exact Script.Reads.mapResult _ (reads_withArgument fun name =>
      reads_withArgument fun text => ⟨_, fun console => .setVariable fun _ => rfl⟩)
  · refine Script.Reads.mapResult _ (reads_withArgument fun name => ?_)
    refine reads_told (.getVariable name) ?_
    cases Assoc.get? name vars <;> exact reads_done _
  · exact Script.Reads.mapResult _ (reads_told .vars (reads_done _))
  · exact absurd (by decide) hreads
  · exact absurd (by decide) hreads
  · exact absurd (by decide) hreads
  · exact absurd (by decide) hreads
  · exact Script.Reads.mapResult _ (reads_told .commands (reads_done _))
  · exact Script.Reads.mapResult _ (reads_told .exit (reads_done _))
  · cases hcommand

/-- What a call prints and how it ends, by its arguments and the variables alone. -/
theorem gives_callScript (settings : Settings) (h : registry.command? typed = some e)
    (hreads : e.name ∉ worldly) (vars : List (String × Json)) (known : List CommandInfo)
    (command raw : String) :
    ∃ printed outcome, ∀ console, (callScript (interpreter settings) e command raw console).Gives
      vars known console printed outcome := by
  obtain ⟨he, hcommand⟩ := mem_entries_of_command h
  by_cases hname : e.name = "echo"
  · obtain rfl := eq_echo he hname
    refine ⟨raw ++ "\n" ++ "", .ok .null, fun console => ?_⟩
    rw [callScript_echo]
    exact .print (.done _)
  · have hreads : (callScript (interpreter settings) e command raw .terminal).Reads vars known := by
      unfold callScript
      split
      · exact reads_done _
      · exact handlerScript_reads he hcommand hname hreads _
    obtain ⟨outcome, hgives⟩ := hreads
    refine ⟨"", outcome, fun console => ?_⟩
    rw [callScript_of_silent strategies_registry (silent_of_ne_echo he hname) command raw console
      .terminal]
    exact hgives console

end Shell

end CommandShell
