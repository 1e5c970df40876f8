import CommandShell.Proofs.Registry.Filters
import CommandShell.Proofs.Registry.Names
import CommandShell.Proofs.Registry.Order
/-!
# What runs in which order

Registering a name again counts as a new registration, so a registry holds the last accepted entry
of each name, in the order in which those came.  The entries of a kind run by priority.  Filters
stop at the first that does not allow the call, handlers of the start at the first that fails, and
handlers of the stop all run.

    latest es                        the last entry of each name, in order
    RunsUntil passes fails es ran x  es runs in order, up to and including the first that fails
    a registry holds the latest of the accepted entries                    (entries_ofEntries)
    filters and handlers of the start run until one fails     (runsUntil_runFilters,
                                                               runsUntil_startAll)
    all of this after any registrations                       (handlers_run_in_order)
-/

namespace CommandShell.Registry

variable {strategies : StrategySet} {es : List Entry} {e : Entry} {request : FilterRequest}

/-! ## What is held -/

/-- Of each name the last entry, in the order in which these come. -/
def latest : List Entry → List Entry
  | [] => []
  | e :: later => if later.any (·.name = e.name) then latest later else e :: latest later

theorem latest_concat (es : List Entry) (e : Entry) :
    latest (es ++ [e]) = (latest es).filter (·.name ≠ e.name) ++ [e] := by
  induction es with
  | nil => rfl
  | cons f es ih =>
    rw [List.cons_append, latest, latest, List.any_append, ih]
    by_cases hlater : es.any (·.name = f.name) = true
    · simp only [hlater, Bool.true_or, if_true]
    · have hnone : es.any (·.name = f.name) = false := by simpa using hlater
      by_cases hname : e.name = f.name
      · -- the new entry takes the place of `f`
        simp [hnone, hname]
      · simp [hnone, hname, Ne.symm hname]

/-- A registry holds the last accepted entry of each name, in order of registration. -/
theorem entries_ofEntries (strategies : StrategySet) (es : List Entry) :
    (ofEntries strategies es).entries = latest (accepted strategies es) := by
  induction es using List.reverseRecOn with
  | nil => rfl
  | append_singleton es e ih =>
    rw [ofEntries_concat, accepted_concat]
    split
    · rw [entries_add, latest_concat, ih]
    · exact ih

/-! ## Running until something fails -/

/-- The list runs in order up to and including the first element that fails, and the result is its
failure; if all pass, all of them run. -/
inductive RunsUntil {α β : Type} (passes : α → Prop) (fails : α → β → Prop) :
    List α → List α → Option β → Prop
  | through {xs : List α} (h : ∀ x ∈ xs, passes x) : RunsUntil passes fails xs xs none
  | stops {before after : List α} {x : α} {failure : β} (h : ∀ y ∈ before, passes y)
      (hx : fails x failure) :
      RunsUntil passes fails (before ++ x :: after) (before ++ [x]) (some failure)

section

variable {α β : Type} {passes : α → Prop} {fails : α → β → Prop} {x : α} {xs ran : List α}
  {result : Option β} {failure : β}

theorem RunsUntil.cons (hx : passes x) (h : RunsUntil passes fails xs ran result) :
    RunsUntil passes fails (x :: xs) (x :: ran) result := by
  cases h with
  | through h => exact .through (List.forall_mem_cons.2 ⟨hx, h⟩)
  | @stops before after y failure h hy =>
    rw [← List.cons_append, ← List.cons_append]
    exact .stops (List.forall_mem_cons.2 ⟨hx, h⟩) hy

theorem runsUntil_first (hx : fails x failure) (xs : List α) :
    RunsUntil passes fails (x :: xs) [x] (some failure) :=
  .stops (List.forall_mem_nil _) hx

end

/-! ## Filters -/

/-- The filter answers yes. -/
def Allows (request : FilterRequest) (e : Entry) : Prop :=
  ∃ check rejection scope, e.handler = .filter check rejection scope ∧ check request = .ok true

/-- The filter answers no, for the reason that it was given, or ends with an error, whose text is
the reason. -/
def TurnsAway (request : FilterRequest) (e : Entry) (failure : Failure) : Prop :=
  ∃ check rejection scope, e.handler = .filter check rejection scope ∧
    (check request = .ok false ∧ failure = .rejected e.name rejection ∨
      ∃ error, check request = .error error ∧ failure = .rejected e.name error.message)

theorem allows_of_verdict (he : e.kind = .filter) (h : verdict e request = none) :
    Allows request e := by
  unfold Entry.kind at he
  cases hhandler : e.handler with
  | filter check rejection scope =>
    exact ⟨check, rejection, scope, hhandler, (verdict_filter hhandler request).1 h⟩
  | command | start | stop =>
    rw [hhandler] at he
    cases he

theorem turnsAway_of_verdict {failure : Failure} (h : verdict e request = some failure) :
    TurnsAway request e failure := by
  unfold verdict at h
  split at h
  · next check rejection scope hhandler =>
    refine ⟨check, rejection, scope, hhandler, ?_⟩
    split at h
    · cases h
    · next hcheck => exact Or.inl ⟨hcheck, (Option.some.inj h).symm⟩
    · next error hcheck => exact Or.inr ⟨error, hcheck, (Option.some.inj h).symm⟩
  · cases h

/-- The filters for a command are asked in order, up to and including the first that does not
allow the call. -/
theorem runsUntil_runFilters (r : Registry) (request : FilterRequest) :
    ∃ asked, RunsUntil (Allows request) (TurnsAway request) (r.filterChain request.command) asked
        (r.runFilters request).2 ∧
      (r.runFilters request).1 = asked.map fun e => .filtered e.name request := by
  have hallows {es : List Entry} (hes : ∀ e ∈ es, e ∈ r.filterChain request.command)
      (hverdict : ∀ e ∈ es, verdict e request = none) : ∀ e ∈ es, Allows request e := by
    intro e he
    have hkind := kind_of_mem_byPriority (List.mem_filter.1 (hes e he)).1
    exact allows_of_verdict hkind (hverdict e he)
  unfold runFilters
  cases hresult : (runChain request (r.filterChain request.command)).2 with
  | none =>
    refine ⟨_, .through (hallows (fun _ he => he) ?_), runChain_of_allows hresult⟩
    exact (runChain_allows_iff request _).1 hresult
  | some failure =>
    obtain ⟨before, e, after, hchain, hbefore, hobjects, hevents⟩ := runChain_eq_rejected hresult
    refine ⟨before ++ [e], ?_, hevents⟩
    have hmem : ∀ f ∈ before, f ∈ r.filterChain request.command := by
      intro f hf
      rw [hchain]
      exact List.mem_append_left _ hf
    have hpass := hallows hmem hbefore
    rw [hchain]
    exact .stops hpass (turnsAway_of_verdict hobjects)

/-! ## Handlers of the start -/

/-- The handler of the start succeeds. -/
def Starts (e : Entry) : Prop := ∃ done, e.handler = .start (.ok done)

/-- The handler of the start fails, and the failure names it and says why. -/
def FailsToStart (e : Entry) (failure : LifecycleFailure) : Prop :=
  ∃ cause, e.handler = .start (.error cause) ∧ failure = ⟨e.name, cause⟩

theorem runsUntil_startChain (h : ∀ e ∈ es, e.kind = .start) :
    ∃ ran, RunsUntil Starts FailsToStart es ran (startChain es).2 ∧
      (startChain es).1 = ran.map fun e => .started e.name := by
  induction es with
  | nil => exact ⟨[], .through (List.forall_mem_nil _), rfl⟩
  | cons e es ih =>
    obtain ⟨hkind, hkinds⟩ := List.forall_mem_cons.1 h
    obtain ⟨ran, hruns, hevents⟩ := ih hkinds
    unfold Entry.kind at hkind
    rw [startChain]
    cases hhandler : e.handler with
    | start result =>
      cases result with
      | error cause => exact ⟨[e], runsUntil_first ⟨cause, hhandler, rfl⟩ es, rfl⟩
      | ok done =>
        refine ⟨e :: ran, hruns.cons ⟨done, hhandler⟩, ?_⟩
        rw [List.map_cons, ← hevents]
    | command | filter | stop =>
      rw [hhandler] at hkind
      cases hkind

/-- The handlers of the start run in order, up to and including the first that fails. -/
theorem runsUntil_startAll (r : Registry) :
    ∃ ran, RunsUntil Starts FailsToStart (r.byPriority .start) ran r.startAll.2 ∧
      r.startAll.1 = ran.map fun e => .started e.name :=
  runsUntil_startChain fun _ he => kind_of_mem_byPriority he

/-! ## After any registrations -/

/-- **Filters and the handlers of the start and of the stop run in order and stop where they
should.**  After any registrations the entries of a kind, each name at its last registration, run
by ascending priority, those of equal priority in the order of registration.  A call asks the
filters that cover its command in that order, up to and including the first that does not say yes,
which turns it away with its name and its reason or the text of its error.  The start runs up to
and including the first handler that fails and reports that failure.  The stop runs all handlers
and returns the failures in that order. -/
theorem handlers_run_in_order (strategies : StrategySet) (es : List Entry) :
    let r := ofEntries strategies es
    r.entries = latest (accepted strategies es) ∧
      (∀ kind, ByPriority ((latest (accepted strategies es)).filter fun e => e.kind = kind)
        (r.byPriority kind)) ∧
      (∀ request, ∃ asked, RunsUntil (Allows request) (TurnsAway request)
          ((r.byPriority .filter).filter fun e => e.covers request.command) asked
          (r.runFilters request).2 ∧
        (r.runFilters request).1 = asked.map fun e => .filtered e.name request) ∧
      (∃ ran, RunsUntil Starts FailsToStart (r.byPriority .start) ran r.startAll.2 ∧
        r.startAll.1 = ran.map fun e => .started e.name) ∧
      r.stopAll = ((r.byPriority .stop).map fun e => .stopped e.name,
        (r.byPriority .stop).filterMap Entry.stopFailure?) := by
  intro r
  have hentries := entries_ofEntries strategies es
  refine ⟨hentries, fun kind => ?_, runsUntil_runFilters r, runsUntil_startAll r, stopAll_eq r⟩
  rw [← hentries]
  exact ordered_byPriority r kind

end CommandShell.Registry
