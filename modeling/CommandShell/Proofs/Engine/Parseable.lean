import CommandShell.Proofs.Engine.Records
import CommandShell.Proofs.Parse.Blame
import CommandShell.Proofs.Registry.Names
/-!
# Registered commands can be parsed

A command is registered only if its strategy is there and accepts its parameters, and nothing that
happens to the registry afterwards takes that away.  A call of a registered command may fail for
its arguments, but not for its strategy.

    Served strategies e     e is no command, or its strategy is there and accepts its parameters
    refusal? e = none ↔ Served e                                  (refusal?_eq_none_iff)
    a registration that is refused might as well not have been    (ofEntries_of_refused)
    a failure of a served command blames its arguments            (Accounts.kind_ne)
-/

namespace CommandShell

/-! ## In the registry -/

namespace Registry

variable {r : Registry} {strategies : StrategySet} {es : List Entry} {d e : Entry}

/-- A command can be parsed: its strategy is in the set and accepts its parameters.  Other entries
have nothing to parse. -/
def Served (strategies : StrategySet) (e : Entry) : Prop :=
  e.isCommand = true →
    ∃ s, Assoc.get? e.strategy strategies = some s ∧ s.mismatch e.parameters = none

theorem refusal?_eq_none_iff (r : Registry) (e : Entry) :
    r.refusal? e = none ↔ Served r.strategies e := by
  unfold refusal? strategyOf? Served
  by_cases hcommand : e.isCommand = true
  · cases hstrategy : Assoc.get? e.strategy r.strategies with
    | none => simp [hcommand]
    | some s => simp [hcommand]
  · simp [hcommand]

theorem register_eq_error_iff (r : Registry) (e : Entry) :
    (∃ error, (r.register e).1 = .error error) ↔ ¬ Served r.strategies e := by
  rw [← refusal?_eq_none_iff]
  unfold register
  cases r.refusal? e with
  | none => simp
  | some error => simp

/-- A registration that is refused leaves the registry as it was. -/
theorem register_of_error {error : RegistrationError} (h : (r.register e).1 = .error error) :
    (r.register e).2 = r := by
  unfold register at h ⊢
  cases hrefusal : r.refusal? e with
  | none => simp [hrefusal] at h
  | some reason => rfl

/-- Every entry that is held is served, whatever came and went before. -/
theorem served_ofEntries (strategies : StrategySet) (es : List Entry) :
    ∀ e ∈ (ofEntries strategies es).entries, Served strategies e := by
  induction es using List.reverseRecOn with
  | nil =>
    intro e he
    cases he
  | append_singleton es new ih =>
    rw [ofEntries_concat]
    split
    · next haccepted =>
      rw [Option.isNone_iff_eq_none, refusal?_eq_none_iff] at haccepted
      intro e he
      rw [entries_add] at he
      rcases List.mem_append.1 he with hold | hnew
      · exact ih e (List.mem_filter.1 hold).1
      · rw [List.mem_singleton.1 hnew]
        exact haccepted
    · exact ih

/-- A registration that is refused might as well not have been. -/
theorem ofEntries_of_refused (h : ¬ Served strategies e) (after : List Entry) :
    ofEntries strategies (es ++ e :: after) = ofEntries strategies (es ++ after) := by
  have hdropped : (ofEntries strategies es).registerOrDrop e = ofEntries strategies es := by
    rw [registerOrDrop_eq, if_neg]
    rw [Option.isNone_iff_eq_none, refusal?_eq_none_iff, strategies_ofEntries]
    exact h
  unfold ofEntries at hdropped ⊢
  rw [List.foldl_append, List.foldl_cons, hdropped, List.foldl_append]

end Registry

/-! ## In a call -/

/-- The strategy never fails a command whose parameters it accepts for not fitting it. -/
def Strategy.KeepsToArguments (s : Strategy) : Prop :=
  ∀ ps, s.mismatch ps = none → ∀ raw ctx, BlamesArguments (s.parse ps raw ctx)

theorem ParseFailure.kind_eq_mismatch_iff (cause : ParseFailure) :
    cause.kind = "strategy-mismatch" ↔
      ∃ strategy reason, cause = .strategyMismatch strategy reason := by
  cases cause with
  | strategyMismatch strategy reason => exact iff_of_true rfl ⟨strategy, reason, rfl⟩
  | lackRequired parameter => exact iff_of_false (by simp [ParseFailure.kind]) (by simp)
  | coercion parameter cause => exact iff_of_false (by simp [ParseFailure.kind]) (by simp)
  | incomplete parameter => exact iff_of_false (by simp [ParseFailure.kind]) (by simp)

/-- Parsing for a served command blames its arguments. -/
theorem Interpreter.parse_blamesArguments {i : Interpreter} {d : Entry}
    (hserved : Registry.Served i.registry.strategies d) (hcommand : d.isCommand = true)
    (hkeeps : ∀ p ∈ i.registry.strategies, p.2.KeepsToArguments) (rawArgs : String)
    (console : Console) (order : TableOrder) :
    BlamesArguments (i.parse d rawArgs console order) := by
  obtain ⟨s, hstrategy, haccepts⟩ := hserved hcommand
  have hfound : i.registry.strategyOf? d = some s := hstrategy
  rw [Interpreter.parse, hfound]
  exact hkeeps _ (Assoc.mem_of_get? hstrategy) d.parameters haccepts rawArgs _

namespace World

variable {i : Interpreter} {e : Entry} {request : FilterRequest} {r : Record}
  {arguments : Except ParseFailure (List Value)} {runs : List Arguments}

/-- Whatever stage a call fails at, it is not for its strategy if parsing did not say so. -/
theorem Accounts.kind_ne (h : Accounts i e request arguments runs r)
    (harguments : BlamesArguments arguments) {f : Failure} (hf : r.failure? = some f) :
    f.kind ≠ "strategy-mismatch" := by
  cases hfilters : (i.registry.runFilters request).2 with
  | some g =>
    obtain ⟨hg, hkind⟩ := h.rejected g hfilters
    obtain rfl := Option.some.inj (hf.symm.trans hg)
    rw [hkind]
    decide
  | none =>
    cases arguments with
    | error cause =>
      obtain rfl := Option.some.inj (hf.symm.trans (h.unparsed hfilters cause rfl))
      intro hkind
      obtain ⟨strategy, reason, rfl⟩ := cause.kind_eq_mismatch_iff.1 hkind
      exact harguments strategy reason rfl
    | ok values =>
      obtain ⟨-, _, _, -, -, -, -, hkind⟩ := h.handled hfilters values rfl
      rw [hkind f hf]
      decide

end World

open World

/-- **Registered commands can be parsed.**  Whatever was registered with whatever strategies, the
strategy of each command that is held is in the set and accepts its parameters.  A registration is
refused exactly if that would not be so; then the registry is left as it was, and after anything
that follows it is what it would be without that registration.  If the strategies do not fail a
command that they accept for not fitting them, a line that names a registered command never fails
for its strategy. -/
theorem registered_commands_parse (strategies : StrategySet) (es : List Entry) :
    let r := Registry.ofEntries strategies es
    (∀ e ∈ r.entries, Registry.Served strategies e) ∧
      (∀ e, (∃ error, (r.register e).1 = .error error) ↔ ¬ Registry.Served strategies e) ∧
      (∀ e error, (r.register e).1 = .error error → (r.register e).2 = r ∧
        ∀ after, Registry.ofEntries strategies (es ++ e :: after) =
          Registry.ofEntries strategies (es ++ after)) ∧
      ((∀ p ∈ strategies, p.2.KeepsToArguments) →
        ∀ (i : Interpreter) (th : Thread) (n : Nat) (line typed rest : String) (console : Console)
          (w : World) (d : Entry), i.registry = r → n < w.sessions.sessions.length →
          splitCommand line = some (typed, rest) → r.lookup typed = some d → d.isCommand = true →
            ∀ legs record,
              Legs i th w (w.dispatch i th n line console).1 (w.dispatch i th n line console).2
                legs record →
              ∀ f, record.failure? = some f → f.kind ≠ "strategy-mismatch") := by
  intro r
  have hstrategies : r.strategies = strategies := Registry.strategies_ofEntries strategies es
  have hserved := Registry.served_ofEntries strategies es
  have hrefused (e : Entry) : (∃ error, (r.register e).1 = .error error) ↔
      ¬ Registry.Served strategies e := by
    rw [Registry.register_eq_error_iff, hstrategies]
  refine ⟨hserved, hrefused, ?_, ?_⟩
  · intro e error herror
    exact ⟨Registry.register_of_error herror,
      Registry.ofEntries_of_refused ((hrefused e).1 ⟨error, herror⟩)⟩
  · intro hkeeps i th n line typed rest console w d hregistry hn hsplit hlookup hcommand legs
      record hlegs f hf
    have hfound : i.registry.find typed = d := by
      rw [hregistry, Registry.find, Registry.command?_eq_some_iff.2 ⟨hlookup, hcommand⟩,
        Option.getD_some]
    have hset : i.registry.strategies = strategies := by rw [hregistry, hstrategies]
    obtain ⟨-, -, -, haccounts⟩ := legs_dispatch console hn hsplit hlegs
    rw [hfound] at haccounts
    have hparse := Interpreter.parse_blamesArguments (i := i)
      (by rw [hset]; exact hserved d (Registry.mem_of_entry hlookup)) hcommand
      (by rw [hset]; exact hkeeps) (w.substituted n rest).1 console w.order
    exact haccounts.kind_ne hparse hf

/-- A command that takes a number and answers nothing. -/
def counting : Entry :=
  { Registry.noop with name := "count", aliases := ["c"], parameters := [.flag "up" .int] }

/-- The same with a strategy that nobody has. -/
def misfit : Entry := { counting with strategy := "bogus" }

theorem registered_command_blames_argument :
  let r := Registry.ofEntries Strategy.builtin [counting, misfit]
    let i : Interpreter := ⟨.default, r, .builtin, []⟩
    let w := ((World.initial .default 0 1).locate (.named "a")).2
    let called := w.dispatch i (.caller 0) 0 "c --up=x" .terminal
  r.entries = [counting] ∧ (∃ error, (r.register misfit).1 = .error error) ∧
    ∃ legs record f, Legs i (.caller 0) w called.1 called.2 legs record ∧
      record.failure? = some f ∧ f.kind = "coercion-error" ∧ f.kind ≠ "strategy-mismatch" := by
  intro r i w called
  obtain ⟨-, hrefused, -, hnever⟩ :=
    registered_commands_parse Strategy.builtin [counting, misfit]
  have hbogus : ¬ Registry.Served Strategy.builtin misfit := by
    intro h
    obtain ⟨s, hs, -⟩ := h rfl
    cases hs
  have hkeeps : ∀ p ∈ Strategy.builtin, p.2.KeepsToArguments := by
    intro p hp ps _ raw ctx
    exact Strategy.builtin_blamesArguments hp ps raw ctx
  obtain ⟨record, w', f, hcalled, hfailure, hkind⟩ : ∃ record w' f,
      called = (.finished record, w') ∧ record.failure? = some f ∧ f.kind = "coercion-error" :=
    ⟨_, _, _, rfl, rfl, rfl⟩
  have hlegs : Legs i (.caller 0) w called.1 called.2 [⟨w, w'⟩] record := by
    rw [hcalled]
    exact .last w w' record
  refine ⟨rfl, (hrefused misfit).2 hbogus, _, record, f, hlegs, hfailure, hkind, ?_⟩
  exact hnever hkeeps i (.caller 0) 0 "c --up=x" "c" "--up=x" .terminal w counting rfl (by decide)
    rfl rfl rfl _ record hlegs f hfailure

end CommandShell
