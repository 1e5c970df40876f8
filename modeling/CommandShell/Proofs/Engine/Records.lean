import CommandShell.Parse.Builtin
import CommandShell.Proofs.Engine.Calls
/-!
# Every call leaves one record

Whatever becomes of the call that a line makes, one record is added to one history, and it says
at which stage the call ended.

    AddsOne n r legs            the last leg pushes r onto the history of session n, no other
                                leg touches a history
    Accounts .. runs r          r and the handlers that ran fit the first stage that failed
    a call that goes on adds one record and logs nothing          (legs_runCall)
    a line that is not blank leaves one record                    (dispatch_leaves_one_record)
-/

namespace CommandShell

open CommandShell.Text

/-- The arguments with which a handler was taken up. -/
def Event.invocation? : Event → Option Arguments
  | .invoked _ args => some args
  | _ => none

/-- A handler that does not answer ends in a failure of the handler. -/
theorem Outcome.result_cases (command : String) (o : Outcome) :
    (∃ v, o = .answered v ∧ o.result command = .ok v) ∨
      (∀ v, o ≠ .answered v) ∧
        ∃ f, o.result command = .error f ∧ f.kind = "handler-failure" := by
  cases o with
  | answered v => exact Or.inl ⟨v, rfl, rfl⟩
  | failed e => exact Or.inr ⟨by simp, _, rfl, rfl⟩
  | panicked text => exact Or.inr ⟨by simp, _, rfl, rfl⟩

namespace World

variable {i : Interpreter} {th : Thread} {w w' : World} {called : Called} {r : Record} {n : Nat}
  {typed rawArgs : String} {arguments : Entry → Except ParseFailure (List Value)}

/-- What was logged in a leg. -/
def Leg.events (l : Leg) : List Event := l.after.events.drop l.before.events.length

/-- The handlers that were taken up in some legs, with their arguments. -/
def handlerRuns (legs : List Leg) : List Arguments :=
  legs.flatMap fun l => l.events.filterMap Event.invocation?

theorem handlerRuns_eq (legs : List Leg) :
    handlerRuns legs = (legs.flatMap Leg.events).filterMap Event.invocation? := by
  rw [handlerRuns, List.filterMap_flatMap]

/-- The last leg pushes a record onto the history of a session, and that is all that becomes of
any history. -/
inductive AddsOne (n : Nat) (r : Record) : List Leg → Prop
  | last {l : Leg} (hpush : (l.after.session n).history = ((l.before.session n).push r).history)
      (hothers : ∀ m, m ≠ n → (l.after.session m).history = (l.before.session m).history) :
      AddsOne n r [l]
  | more {l : Leg} {legs : List Leg}
      (hsame : ∀ m, (l.after.session m).history = (l.before.session m).history)
      (h : AddsOne n r legs) : AddsOne n r (l :: legs)

theorem AddsOne.congr_first {l : Leg} {rest : List Leg} {w₀ : World}
    (h : AddsOne n r (l :: rest)) (hsame : ∀ m, (l.before.session m) = (w₀.session m)) :
    AddsOne n r (⟨w₀, l.after⟩ :: rest) := by
  cases h with
  | last hpush hothers =>
    exact .last (hpush.trans (by rw [hsame])) fun m hm => (hothers m hm).trans (by rw [hsame])
  | more hhistory h => exact .more (fun m => (hhistory m).trans (by rw [hsame])) h

/-- A call that goes on adds its record to the history of its session.  Its handler logs nothing,
and what the record says is something that the handler may end with. -/
theorem legs_runCall {legs : List Leg} {inv : Invocation}
    (hn : inv.session < w.sessions.sessions.length)
    (h : Legs i th w (w.runCall i th inv).1 (w.runCall i th inv).2 legs r) :
    AddsOne inv.session r legs ∧ (∀ l ∈ legs, l.after.events = l.before.events) ∧
      ∃ now outcome, inv.script.Yields outcome ∧ r = inv.record now outcome := by
  generalize hcalled : w.runCall i th inv = done at h
  obtain ⟨called, w'⟩ := done
  dsimp only at h
  induction h generalizing inv with
  | last w w' r =>
    rcases runCall_cases i th inv w with ⟨outcome, w₁, hyields, hquiet, hrun⟩ | ⟨_, _, _, _, hrun⟩
    · rw [hcalled] at hrun
      obtain ⟨hr, rfl⟩ := Prod.mk.inj hrun
      obtain rfl := Called.finished.inj hr
      have hlt : inv.session < w₁.sessions.sessions.length := Nat.lt_of_lt_of_le hn hquiet.sessions
      refine ⟨.last ?_ fun m hm => ?_, ?_, w₁.now, outcome, hyields, rfl⟩
      · rw [session_modifySession_self hlt]
        simp only [Session.push, hquiet.history, hquiet.limit]
      · rw [session_modifySession_of_ne hm]
        exact hquiet.history m
      · intro l hl
        obtain rfl := List.mem_singleton.1 hl
        exact hquiet.events
    · rw [hcalled] at hrun
      cases hrun
  | @more w w' next inv' legs r hle h ih =>
    rcases runCall_cases i th inv w with ⟨_, _, _, _, hrun⟩ | ⟨rest, w₁, hyields, hquiet, hrun⟩
    · rw [hcalled] at hrun
      cases hrun
    · rw [hcalled] at hrun
      obtain ⟨hinv, rfl⟩ := Prod.mk.inj hrun
      obtain rfl := Called.waiting.inj hinv
      have hlt : ({ inv with script := rest } : Invocation).session <
          next.sessions.sessions.length :=
        Nat.lt_of_lt_of_le hn (Nat.le_trans hquiet.sessions hle)
      obtain ⟨hadds, hevents, now, outcome, hrest, hr⟩ := ih hlt rfl
      refine ⟨.more hquiet.history hadds, ?_, now, outcome, hyields outcome hrest, hr⟩
      intro l hl
      rcases List.mem_cons.1 hl with rfl | hl
      · exact hquiet.events
      · exact hevents l hl

/-- Whatever a call logs, it logs when it begins. -/
theorem events_begun {legs : List Leg} {inv : Invocation} {w₁ : World} {added : List Event}
    (h : Legs i th w (w₁.runCall i th inv).1 (w₁.runCall i th inv).2 legs r)
    (hn : inv.session < w₁.sessions.sessions.length) (hevents : w₁.events = w.events ++ added) :
    legs.flatMap Leg.events = added := by
  obtain ⟨rest, rfl, hfirst⟩ := h.first
  obtain ⟨-, hquiet, -⟩ := legs_runCall hn (hfirst w₁)
  have hadded : Leg.events ⟨w, (w₁.runCall i th inv).2⟩ = added := by
    have hlogged : (w₁.runCall i th inv).2.events = w₁.events := hquiet _ List.mem_cons_self
    simp only [Leg.events, hlogged, hevents, List.drop_left]
  have hrest : ∀ l ∈ rest, l.events = [] := by
    intro l hl
    rw [Leg.events, hquiet l (List.mem_cons_of_mem _ hl), List.drop_length]
  rw [List.flatMap_cons, hadded, List.flatMap_eq_nil_iff.2 hrest, List.append_nil]

/-- The legs of a call that was begun in a session, from before it began. -/
theorem legs_begun {legs : List Leg} {inv : Invocation} {w₁ : World} {added : List Event}
    (h : Legs i th w (w₁.runCall i th inv).1 (w₁.runCall i th inv).2 legs r)
    (hn : inv.session < w.sessions.sessions.length) (hsame : w₁.sessions = w.sessions)
    (hevents : w₁.events = w.events ++ added) :
    AddsOne inv.session r legs ∧ handlerRuns legs = added.filterMap Event.invocation? ∧
      ∃ now outcome, inv.script.Yields outcome ∧ r = inv.record now outcome := by
  have hlt : inv.session < w₁.sessions.sessions.length := by rw [hsame]; exact hn
  have hadded := events_begun h hlt hevents
  obtain ⟨rest, rfl, hfirst⟩ := h.first
  obtain ⟨hadds, -, hyields⟩ := legs_runCall hlt (hfirst w₁)
  refine ⟨hadds.congr_first fun m => by simp only [session, hsame], ?_, hyields⟩
  rw [handlerRuns_eq, hadded]

/-! ## One record -/

/-- What a record says of a call and how often the handler was taken up, by the first stage that
fails: the filters, then the arguments, then the handler. -/
structure Accounts (i : Interpreter) (e : Entry) (request : FilterRequest)
    (arguments : Except ParseFailure (List Value)) (runs : List Arguments) (r : Record) :
    Prop where
  success : r.success = true ↔ r.failure? = none
  result : r.failure? ≠ none → r.result = .null
  ran : runs ≠ [] ↔
    (i.registry.runFilters request).2 = none ∧ ∃ values, arguments = .ok values
  once : runs.length ≤ 1
  rejected : ∀ f, (i.registry.runFilters request).2 = some f →
    r.failure? = some f ∧ f.kind = "filter-rejection"
  unparsed : (i.registry.runFilters request).2 = none → ∀ cause, arguments = .error cause →
    r.failure? = some (.parse cause)
  handled : (i.registry.runFilters request).2 = none → ∀ values, arguments = .ok values →
    runs = [⟨request.command, values⟩] ∧
      ∃ run o, e.handler = .command run ∧ (run ⟨request.command, values⟩).Yields o ∧
        r.outcome = o.result request.command ∧ (r.failure? = none ↔ ∃ v, o = .answered v) ∧
        ∀ f, r.failure? = some f → f.kind = "handler-failure"

section

variable {e : Entry} {request : FilterRequest} {parsed : Except ParseFailure (List Value)}

theorem accounts_of_rejected {f : Failure} (h : (i.registry.runFilters request).2 = some f)
    (houtcome : r.outcome = .error f) : Accounts i e request parsed [] r where
  success := r.success_iff
  result := Record.result_of_failure
  ran := by simp [h]
  once := Nat.zero_le 1
  rejected := by
    intro g hg
    obtain rfl := Option.some.inj (h.symm.trans hg)
    obtain ⟨filter, reason, rfl⟩ := Registry.rejected_of_runChain h
    exact ⟨Record.failure?_of_error houtcome, rfl⟩
  unparsed hnone := absurd (h.symm.trans hnone) (Option.some_ne_none f)
  handled hnone := absurd (h.symm.trans hnone) (Option.some_ne_none f)

theorem accounts_of_unparsed {cause : ParseFailure}
    (h : (i.registry.runFilters request).2 = none) (hparsed : parsed = .error cause)
    (houtcome : r.outcome = .error (.parse cause)) : Accounts i e request parsed [] r where
  success := r.success_iff
  result := Record.result_of_failure
  ran := by simp [hparsed]
  once := Nat.zero_le 1
  rejected g hg := absurd (hg.symm.trans h) (Option.some_ne_none g)
  unparsed _ other hother := by
    obtain rfl := Except.error.inj (hparsed.symm.trans hother)
    exact Record.failure?_of_error houtcome
  handled _ values hvalues := by
    rw [hparsed] at hvalues
    cases hvalues

theorem accounts_of_handled {values : List Value} {run : Arguments → Script Outcome} {o : Outcome}
    (h : (i.registry.runFilters request).2 = none) (hparsed : parsed = .ok values)
    (hhandler : e.handler = .command run) (hyields : (run ⟨request.command, values⟩).Yields o)
    (houtcome : r.outcome = o.result request.command) :
    Accounts i e request parsed [⟨request.command, values⟩] r where
  success := r.success_iff
  result := Record.result_of_failure
  ran := by simp [h, hparsed]
  once := Nat.le_refl 1
  rejected g hg := absurd (hg.symm.trans h) (Option.some_ne_none g)
  unparsed _ cause hcause := by
    rw [hparsed] at hcause
    cases hcause
  handled _ others hothers := by
    obtain rfl := Except.ok.inj (hparsed.symm.trans hothers)
    refine ⟨rfl, run, o, hhandler, hyields, houtcome, ?_⟩
    rcases o.result_cases request.command with ⟨v, rfl, hresult⟩ | ⟨hnot, f, hresult, hkind⟩
    · have hnone : r.failure? = none := by simp only [Record.failure?, houtcome, hresult]
      exact ⟨iff_of_true hnone ⟨v, rfl⟩, fun f hf => by rw [hnone] at hf; cases hf⟩
    · have hsome : r.failure? = some f := Record.failure?_of_error (houtcome.trans hresult)
      refine ⟨iff_of_false (by rw [hsome]; exact Option.some_ne_none f) ?_, ?_⟩
      · rintro ⟨v, hv⟩
        exact hnot v hv
      · intro g hg
        obtain rfl := Option.some.inj (hsome.symm.trans hg)
        exact hkind

end

theorem filterMap_invocation_runFilters (registry : Registry) (request : FilterRequest) :
    (registry.runFilters request).1.filterMap Event.invocation? = [] := by
  rw [List.filterMap_eq_nil_iff]
  intro event hevent
  obtain ⟨f, -, rfl⟩ := Registry.filtered_of_mem_runChain hevent
  rfl

/-- The record of a begun call, whichever stage it ended at. -/
theorem legs_beginCall {legs : List Leg} {w₀ w₁ : World} {inv : Invocation}
    (hbegin : w₀.beginCall i n typed rawArgs arguments = (inv, w₁))
    (h : Legs i th w (w₁.runCall i th inv).1 (w₁.runCall i th inv).2 legs r)
    (hn : n < w.sessions.sessions.length) (hsame : w₀.sessions = w.sessions)
    (hevents : w₀.events = w.events) :
    AddsOne n r legs ∧ r.command = typed ∧ r.rawArgs = rawArgs ∧
      Accounts i (i.registry.find typed)
        ⟨i.registry.canonicalName typed, rawArgs, (w.session n).label⟩
        (arguments (i.registry.find typed)) (handlerRuns legs) r := by
  have hrequest : w₀.filterRequest i (w₀.newCall i n typed rawArgs) =
      ⟨i.registry.canonicalName typed, rawArgs, (w.session n).label⟩ := by
    simp only [filterRequest, newCall, session, hsame]
  generalize (⟨i.registry.canonicalName typed, rawArgs, (w.session n).label⟩ : FilterRequest) =
    request at hrequest ⊢
  have hlog : (w₀.log (i.registry.runFilters request).1).events =
      w.events ++ (i.registry.runFilters request).1 := by
    rw [← hevents]
    rfl
  cases hfilters : (i.registry.runFilters request).2 with
  | some f =>
    have hrejected : (i.registry.runFilters
        (w₀.filterRequest i (w₀.newCall i n typed rawArgs))).2 = some f := by
      rw [hrequest]
      exact hfilters
    rw [beginCall_of_rejected rfl hrejected, hrequest] at hbegin
    obtain ⟨rfl, rfl⟩ := Prod.mk.inj hbegin
    obtain ⟨hadds, hruns, now, outcome, hyields, rfl⟩ := legs_begun h hn hsame hlog
    rw [hruns, filterMap_invocation_runFilters]
    cases hyields
    exact ⟨hadds, rfl, rfl, accounts_of_rejected hfilters rfl⟩
  | none =>
    have hallowed : (i.registry.runFilters
        (w₀.filterRequest i (w₀.newCall i n typed rawArgs))).2 = none := by
      rw [hrequest]
      exact hfilters
    cases hargs : arguments (i.registry.find typed) with
    | error cause =>
      rw [beginCall_of_unparsed rfl hallowed hargs, hrequest] at hbegin
      obtain ⟨rfl, rfl⟩ := Prod.mk.inj hbegin
      obtain ⟨hadds, hruns, now, outcome, hyields, rfl⟩ := legs_begun h hn hsame hlog
      rw [hruns, filterMap_invocation_runFilters]
      cases hyields
      exact ⟨hadds, rfl, rfl, accounts_of_unparsed hfilters rfl rfl⟩
    | ok values =>
      obtain ⟨run, hhandler⟩ := exists_handler_of_find i.registry typed
      rw [beginCall_of_admitted rfl hallowed hargs, hrequest] at hbegin
      obtain ⟨rfl, rfl⟩ := Prod.mk.inj hbegin
      have hlog' : ((w₀.log (i.registry.runFilters request).1).log
          [.invoked (w₀.newCall i n typed rawArgs) ⟨request.command, values⟩]).events =
          w.events ++ ((i.registry.runFilters request).1 ++
            [.invoked (w₀.newCall i n typed rawArgs) ⟨request.command, values⟩]) := by
        rw [← List.append_assoc, ← hlog]
        rfl
      obtain ⟨hadds, hruns, now, outcome, hyields, rfl⟩ := legs_begun h hn hsame hlog'
      rw [hruns, List.filterMap_append, filterMap_invocation_runFilters]
      simp only [handlerScript, hhandler] at hyields
      obtain ⟨o, ho, rfl⟩ := hyields.of_mapResult
      exact ⟨hadds, rfl, rfl, accounts_of_handled hfilters rfl hhandler ho rfl⟩

theorem settles_dispatch {line rest : String} (th : Thread) (console : Console)
    (hsplit : splitCommand line = some (typed, rest)) :
    Settles i th (w.dispatch i th n line console).1 := by
  rw [dispatch_of_split th console hsplit]
  exact settles_runCall i th _ _ _

/-- The record of a line with a command. -/
theorem legs_dispatch {legs : List Leg} {line rest : String} (console : Console)
    (hn : n < w.sessions.sessions.length) (hsplit : splitCommand line = some (typed, rest))
    (h : Legs i th w (w.dispatch i th n line console).1 (w.dispatch i th n line console).2 legs r) :
    AddsOne n r legs ∧ r.command = typed ∧ r.rawArgs = (w.substituted n rest).1 ∧
      Accounts i (i.registry.find typed)
        ⟨i.registry.canonicalName typed, (w.substituted n rest).1, (w.session n).label⟩
        (i.parse (i.registry.find typed) (w.substituted n rest).1 console w.order)
        (handlerRuns legs) r := by
  rcases hbegin : beginCall i n typed (w.substituted n rest).1
      (fun e => i.parse e (w.substituted n rest).1 console w.order)
      { w with chance := (w.substituted n rest).2 } with ⟨inv, w₁⟩
  rw [dispatch_of_split th console hsplit, hbegin] at h
  exact legs_beginCall hbegin h hn rfl rfl

/-- **A line that is not blank leaves one record in its session.**  A blank line changes nothing.
Any other comes to its record, which is the one that is returned, and the record says at which
stage the call ended. -/
theorem dispatch_leaves_one_record (i : Interpreter) (th : Thread) (n : Nat) (line : String)
    (console : Console) (w : World) (hn : n < w.sessions.sessions.length) :
    (allBlank line.toList = true → w.dispatch i th n line console = (.blank, w)) ∧
    (allBlank line.toList = false → ∃ typed rest, splitCommand line = some (typed, rest) ∧
      ∀ called w', w.dispatch i th n line console = (called, w') →
        Settles i th called ∧ (∃ legs r, Legs i th w called w' legs r) ∧
        ∀ legs r, Legs i th w called w' legs r →
          AddsOne n r legs ∧ r.command = typed ∧ r.rawArgs = (w.substituted n rest).1 ∧
          Accounts i (i.registry.find typed)
            ⟨i.registry.canonicalName typed, r.rawArgs, (w.session n).label⟩
            (i.parse (i.registry.find typed) r.rawArgs console w.order) (handlerRuns legs) r) := by
  refine ⟨fun hblank => ?_, fun hline => ?_⟩
  · exact dispatch_of_blank th console hblank
  · cases hsplit : splitCommand line with
    | none =>
      rw [(splitCommand_eq_none_iff line).1 hsplit] at hline
      cases hline
    | some cut =>
      obtain ⟨typed, rest⟩ := cut
      refine ⟨typed, rest, rfl, fun called w' hdispatch => ?_⟩
      have hsettles : Settles i th called := by
        have h : Settles i th (w.dispatch i th n line console).1 :=
          settles_dispatch th console hsplit
        rwa [hdispatch] at h
      refine ⟨hsettles, exists_legs hsettles w w', fun legs r hlegs => ?_⟩
      have hruns : Legs i th w (w.dispatch i th n line console).1
          (w.dispatch i th n line console).2 legs r := by
        rw [hdispatch]
        exact hlegs
      obtain ⟨hadds, hcommand, hargs, haccounts⟩ := legs_dispatch console hn hsplit hruns
      rw [hargs]
      exact ⟨hadds, hcommand, rfl, haccounts⟩

/-- A command that passes a gate before it answers. -/
def gated : Entry :=
  Entry.ofHandler "gated" (.command fun _ =>
    .request (.pass "gate") fun _ => .done (.answered .null))

theorem gated_leaves_one_record :
    let i : Interpreter := ⟨.default, .ofEntries Strategy.builtin [gated], .builtin, []⟩
    let th : Thread := .caller 0
    let w := ((World.initial .default 0 1).locate (.named "a")).2
    let run := w.dispatch i th 0 "gated now" .terminal
    0 < w.sessions.sessions.length ∧ (∃ inv, run.1 = .waiting inv) ∧
      (∃ legs r, Legs i th w run.1 run.2 legs r) ∧
      ∀ legs r, Legs i th w run.1 run.2 legs r →
        AddsOne 0 r legs ∧ r.rawArgs = "now" ∧ handlerRuns legs = [⟨"gated", []⟩] ∧
          r.failure? = none := by
  intro i th w run
  have hn : 0 < w.sessions.sessions.length := by decide
  obtain ⟨typed, rest, hsplit, hrun⟩ :=
    (dispatch_leaves_one_record i th 0 "gated now" .terminal w hn).2 rfl
  obtain ⟨rfl, rfl⟩ : typed = "gated" ∧ rest = "now" := by
    have hcut : splitCommand "gated now" = some ("gated", "now") := rfl
    rw [hcut] at hsplit
    cases hsplit
    exact ⟨rfl, rfl⟩
  obtain ⟨-, hexists, hall⟩ := hrun run.1 run.2 rfl
  refine ⟨hn, ⟨_, rfl⟩, hexists, fun legs r hlegs => ?_⟩
  obtain ⟨hadds, -, hargs, haccounts⟩ := hall legs r hlegs
  have hnow : r.rawArgs = "now" := hargs
  rw [hnow] at haccounts
  obtain ⟨hruns, _, o, hhandler, hyields, -, hanswered, -⟩ := haccounts.handled rfl [] rfl
  obtain rfl := Handler.command.inj hhandler
  refine ⟨hadds, hnow, hruns, hanswered.2 ?_⟩
  cases hyields with
  | request reply h =>
    cases h
    exact ⟨.null, rfl⟩

end World

end CommandShell
