import CommandShell.Proofs.Engine.Calls
import CommandShell.Proofs.Registry.Names
/-!
# Unknown commands

A line whose command is not registered runs an entry that asks for the default strategy, needs no
arguments and answers nothing.  It is harmless as long as the default strategy is there and takes
any text for no parameters, as each of the built-in strategies does.

    no parameters never fail with a built-in strategy                  (builtin_parse_nil)
    an unknown command finishes at once, and no registered handler runs
                                                                   (dispatch_of_unknown)
    it succeeds ↔ the default strategy gives values for no parameters
                                                                 (unknown_succeeds_iff)
-/

namespace CommandShell

/-- No literal is converted for no parameters. -/
theorem convertBound_nil (ctx : ParseContext) (table : List (Nat × Collection)) :
    convertBound ctx [] table = .ok [] := by
  induction table with
  | nil => rfl
  | cons entry table ih => exact ih

theorem Strategy.builtin_parse_nil {p : String × Strategy} (h : p ∈ Strategy.builtin)
    (text : String) (ctx : ParseContext) : p.2.parse [] text ctx = .ok [] := by
  simp only [Strategy.builtin, List.mem_cons, List.not_mem_nil, or_false] at h
  rcases h with rfl | rfl | rfl | rfl
  · rfl
  · rfl
  · rfl
  · simp only [spans, prefill, convertBound_nil]
    rfl

namespace World

variable {i : Interpreter} {n : Nat} {line typed rest : String} {w : World}

theorem find_of_unknown (h : i.registry.command? typed = none) :
    i.registry.find typed = Registry.noop := by
  rw [Registry.find, h]
  rfl

theorem canonicalName_of_unknown (h : i.registry.command? typed = none) :
    i.registry.canonicalName typed = typed := by
  rw [Registry.canonicalName, h]

/-- What parsing for an unknown command comes to: the default strategy has to be there. -/
theorem parse_noop (i : Interpreter) (text : String) (console : Console) (order : TableOrder) :
    i.parse Registry.noop text console order =
      match Assoc.get? Strategy.defaultName i.registry.strategies with
      | none => .error (.strategyMismatch Strategy.defaultName "strategy is not registered")
      | some s => s.parse [] text ⟨i.coercions, i.preset console, order⟩ := rfl

/-- An unknown command that the filters let pass finishes at once with a record; all that was
logged are filters and the entry that stands for no command. -/
theorem dispatch_of_unknown (th : Thread) (console : Console)
    (hsplit : splitCommand line = some (typed, rest))
    (hunknown : i.registry.command? typed = none)
    (hallowed : (i.registry.runFilters
      ⟨typed, (w.substituted n rest).1, (w.session n).label⟩).2 = none) :
    ∃ r w' added, w.dispatch i th n line console = (.finished r, w') ∧
      r.command = typed ∧ r.rawArgs = (w.substituted n rest).1 ∧
      r.outcome = ((i.parse Registry.noop r.rawArgs console w.order).mapError Failure.parse).map
        (fun _ => Json.null) ∧
      w'.events = w.events ++ added ∧
      ∀ call args, .invoked call args ∈ added → call.entry? = none := by
  have hrequest : filterRequest i
      (newCall i n typed (w.substituted n rest).1 { w with chance := (w.substituted n rest).2 })
      { w with chance := (w.substituted n rest).2 } =
        ⟨typed, (w.substituted n rest).1, (w.session n).label⟩ := by
    simp only [filterRequest, newCall, canonicalName_of_unknown hunknown]
    rfl
  rw [← hrequest] at hallowed
  rw [dispatch_of_split th console hsplit]
  cases hparse : i.parse Registry.noop (w.substituted n rest).1 console w.order with
  | error cause =>
    rw [beginCall_of_unparsed rfl hallowed (by rw [find_of_unknown hunknown]; exact hparse)]
    dsimp only
    rw [runCall_of_done]
    refine ⟨_, _, _, rfl, rfl, rfl, ?_, rfl, ?_⟩
    · simp only [Call.record, newCall, hparse]
      rfl
    · intro call args h
      exact absurd h (Registry.invoked_notMem_runFilters _ _ call args)
  | ok values =>
    rw [beginCall_of_admitted rfl hallowed (by rw [find_of_unknown hunknown]; exact hparse),
      find_of_unknown hunknown]
    dsimp only
    refine ⟨_, _, _, rfl, rfl, rfl, ?_, List.append_assoc _ _ _, ?_⟩
    · have hraw : i.parse Registry.noop (newCall i n typed (w.substituted n rest).1
          { w with chance := (w.substituted n rest).2 }).rawArgs console w.order = .ok values :=
        hparse
      simp only [Call.record, hraw]
      rfl
    · intro call args h
      rcases List.mem_append.1 h with h | h
      · exact absurd h (Registry.invoked_notMem_runFilters _ _ call args)
      · cases List.mem_singleton.1 h
        exact hunknown

/-- **Unknown commands are harmless exactly if the default strategy takes their text.**  A line
with an unknown command that every filter for it allows finishes with a record, and no registered
handler runs.  The record is a success without a result if and only if the default strategy is
there and gives values for no parameters; each of the built-in strategies does, whatever the
text. -/
theorem unknown_succeeds_iff (strategies : StrategySet) (es : List Entry) (i : Interpreter)
    (hregistry : i.registry = .ofEntries strategies es) (th : Thread) (n : Nat)
    (line typed rest : String) (console : Console) (w : World)
    (hsplit : splitCommand line = some (typed, rest))
    (hunknown : i.registry.command? typed = none)
    (hallowed : ∀ e ∈ i.registry.entries, ∀ check rejection scope,
      e.handler = .filter check rejection scope → (scope = [] ∨ typed ∈ scope) →
        check ⟨typed, (w.substituted n rest).1, (w.session n).label⟩ = .ok true) :
    ∃ r w' added, w.dispatch i th n line console = (.finished r, w') ∧
      ((r.success = true ∧ r.result = .null ∧ r.failure? = none) ↔
        ∃ s values, Assoc.get? Strategy.defaultName strategies = some s ∧
          s.parse [] r.rawArgs ⟨i.coercions, i.preset console, w.order⟩ = .ok values) ∧
      (∀ p ∈ Strategy.builtin, Assoc.get? Strategy.defaultName strategies = some p.2 →
        r.success = true) ∧
      (Assoc.get? Strategy.defaultName strategies = none → r.failure? = some (.parse
        (.strategyMismatch Strategy.defaultName "strategy is not registered"))) ∧
      w'.events = w.events ++ added ∧
      ∀ call args, .invoked call args ∈ added → call.entry? = none := by
  obtain ⟨r, w', added, hdispatch, -, -, houtcome, hevents, hadded⟩ :=
    dispatch_of_unknown th console hsplit hunknown
      ((Registry.runFilters_allows_iff i.registry _).2 hallowed)
  have hstrategies : i.registry.strategies = strategies := by
    rw [hregistry, Registry.strategies_ofEntries]
  rw [parse_noop, hstrategies] at houtcome
  refine ⟨r, w', added, hdispatch, ?_⟩
  cases hdefault : Assoc.get? Strategy.defaultName strategies with
  | none =>
    rw [hdefault] at houtcome
    have hfailure : r.failure? = some (.parse
        (.strategyMismatch Strategy.defaultName "strategy is not registered")) :=
      Record.failure?_of_error houtcome
    exact ⟨by simp [hfailure], by simp, fun _ => hfailure, hevents, hadded⟩
  | some s =>
    rw [hdefault] at houtcome
    dsimp only at houtcome
    cases hvalues : s.parse [] r.rawArgs ⟨i.coercions, i.preset console, w.order⟩ with
    | error cause =>
      rw [hvalues] at houtcome
      have hfailure : r.failure? = some (.parse cause) := Record.failure?_of_error houtcome
      refine ⟨by simp [hfailure, hvalues], fun p hp hsame => ?_, by simp, hevents, hadded⟩
      obtain rfl := Option.some.inj hsame
      rw [Strategy.builtin_parse_nil hp] at hvalues
      cases hvalues
    | ok values =>
      rw [hvalues] at houtcome
      have houtcome : r.outcome = .ok .null := houtcome
      have hsuccess : r.success = true ∧ r.result = .null ∧ r.failure? = none := by
        simp [Record.success, Record.result, Record.failure?, houtcome]
      exact ⟨iff_of_true hsuccess ⟨s, values, rfl, hvalues⟩, fun _ _ _ => hsuccess.1, by simp,
        hevents, hadded⟩

/-- A filter that lets the command `nope` pass. -/
def leniency : Entry :=
  Entry.ofHandler "leniency" (.filter (fun _ => .ok true) "never" ["nope"])

theorem unknown_with_flags_and_brackets_succeeds :
    let i : Interpreter := ⟨.default, .ofEntries Strategy.builtin [leniency], .builtin, []⟩
    let w := ((World.initial .default 0 1).locate (.named "a")).2
    splitCommand "nope --x=1 [1,2 -y" = some ("nope", "--x=1 [1,2 -y") ∧
      i.registry.command? "nope" = none ∧
      (∀ e ∈ i.registry.entries, ∀ check rejection scope,
        e.handler = .filter check rejection scope → (scope = [] ∨ "nope" ∈ scope) →
          check ⟨"nope", (w.substituted 0 "--x=1 [1,2 -y").1, (w.session 0).label⟩ = .ok true) ∧
      ∃ r w', w.dispatch i (.caller 0) 0 "nope --x=1 [1,2 -y" .terminal = (.finished r, w') ∧
        r.success = true ∧ r.result = .null ∧ r.failure? = none := by
  intro i w
  have hsplit : splitCommand "nope --x=1 [1,2 -y" = some ("nope", "--x=1 [1,2 -y") := rfl
  have hunknown : i.registry.command? "nope" = none := rfl
  have hallowed : ∀ e ∈ i.registry.entries, ∀ check rejection scope,
      e.handler = .filter check rejection scope → (scope = [] ∨ "nope" ∈ scope) →
        check ⟨"nope", (w.substituted 0 "--x=1 [1,2 -y").1, (w.session 0).label⟩ = .ok true := by
    intro e he check rejection scope hhandler _
    have hentries : i.registry.entries = [leniency] := rfl
    rw [hentries, List.mem_singleton] at he
    subst he
    cases hhandler
    rfl
  obtain ⟨r, w', added, hdispatch, hsuccess, -⟩ :=
    unknown_succeeds_iff Strategy.builtin [leniency] i rfl (.caller 0) 0 "nope --x=1 [1,2 -y"
      "nope" "--x=1 [1,2 -y" .terminal w hsplit hunknown hallowed
  refine ⟨hsplit, hunknown, hallowed, r, w', hdispatch, hsuccess.2 ⟨Strategy.flags, [], rfl, ?_⟩⟩
  exact Strategy.builtin_parse_nil List.mem_cons_self _ _

/-- Where only the strategy without parsing is installed an unknown command fails. -/
theorem unknown_without_default_fails :
    let i : Interpreter :=
      ⟨.default, .ofEntries [(Strategy.rawName, Strategy.raw)] [], .builtin, []⟩
    let w := ((World.initial .default 0 1).locate (.named "a")).2
    i.registry.entries = [] ∧ i.registry.command? "nope" = none ∧
      ∃ r w', w.dispatch i (.caller 0) 0 "nope" .terminal = (.finished r, w') ∧
        r.success = false ∧ r.failure? = some (.parse
          (.strategyMismatch Strategy.defaultName "strategy is not registered")) := by
  intro i w
  exact ⟨rfl, rfl, _, _, rfl, rfl, rfl⟩

end World

end CommandShell
