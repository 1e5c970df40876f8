import CommandShell.Registry.Running
/-!
# What a chain of filters says

A call passes the filters if every filter that covers its command allows it; then all of them were
asked, in order.  A call that does not pass is turned away by the first filter that objects.

    e ∈ filterChain command ↔ e is registered and covers the command      (mem_filterChain_iff)
    the chain allows a request ↔ no filter of it objects                  (runChain_allows_iff)
    a chain that allows a request has asked all its filters               (runChain_of_allows)
    a chain that does not stops at the first that objects                 (runChain_eq_rejected)
-/

namespace CommandShell.Registry

variable {r : Registry} {request : FilterRequest} {e : Entry} {chain es : List Entry}
  {failure : Failure}

theorem mem_insertByPriority (e f : Entry) (es : List Entry) :
    f ∈ insertByPriority e es ↔ f = e ∨ f ∈ es := by
  induction es with
  | nil => simp [insertByPriority]
  | cons g es ih =>
    rw [insertByPriority]
    split
    · exact List.mem_cons
    · rw [List.mem_cons, ih, List.mem_cons]
      exact or_left_comm

theorem mem_sortByPriority (f : Entry) (es : List Entry) : f ∈ sortByPriority es ↔ f ∈ es := by
  induction es with
  | nil => exact Iff.rfl
  | cons e es ih => rw [sortByPriority, mem_insertByPriority, ih, List.mem_cons]

theorem covers_iff (e : Entry) (command : String) :
    e.covers command = true ↔ ∃ check rejection scope,
      e.handler = .filter check rejection scope ∧ (scope = [] ∨ command ∈ scope) := by
  unfold Entry.covers
  cases h : e.handler with
  | filter check rejection scope =>
    constructor
    · intro hscope
      exact ⟨check, rejection, scope, rfl, by simpa [List.isEmpty_iff] using hscope⟩
    · rintro ⟨_, _, _, hsame, hscope⟩
      cases hsame
      simpa [List.isEmpty_iff] using hscope
  | command run => simp
  | start result => simp
  | stop result => simp

theorem mem_filterChain_iff (r : Registry) (command : String) (e : Entry) :
    e ∈ r.filterChain command ↔ e ∈ r.entries ∧ e.covers command = true := by
  unfold filterChain byPriority
  rw [List.mem_filter, mem_sortByPriority, List.mem_filter]
  constructor
  · rintro ⟨⟨he, -⟩, hcovers⟩
    exact ⟨he, hcovers⟩
  · rintro ⟨he, hcovers⟩
    obtain ⟨check, rejection, scope, hhandler, -⟩ := (covers_iff e command).1 hcovers
    have hkind : e.kind = .filter := by rw [Entry.kind, hhandler]; rfl
    exact ⟨⟨he, by simpa using hkind⟩, hcovers⟩

/-! ## Verdicts -/

theorem verdict_filter {check : FilterRequest → Except ErrorChain Bool} {rejection : String}
    {scope : List String} (h : e.handler = .filter check rejection scope)
    (request : FilterRequest) : verdict e request = none ↔ check request = .ok true := by
  unfold verdict
  rw [h]
  dsimp only
  split
  · next hcheck => exact iff_of_true rfl hcheck
  · next hcheck => simp [hcheck]
  · next hcheck => simp [hcheck]

theorem kind_of_verdict (h : verdict e request = some failure) :
    ∃ reason, failure = .rejected e.name reason := by
  unfold verdict at h
  split at h
  · split at h
    · cases h
    · exact ⟨_, (Option.some.inj h).symm⟩
    · exact ⟨_, (Option.some.inj h).symm⟩
  · cases h

theorem runChain_allows_iff (request : FilterRequest) (chain : List Entry) :
    (runChain request chain).2 = none ↔ ∀ e ∈ chain, verdict e request = none := by
  induction chain with
  | nil => simp [runChain]
  | cons e chain ih =>
    rw [runChain]
    cases h : verdict e request with
    | some failure => simp [h]
    | none => simp [h, ih]

/-- What a chain says follows from what its filters say. -/
theorem verdict_runChain_congr {request' : FilterRequest}
    (h : ∀ e ∈ chain, verdict e request = verdict e request') :
    (runChain request chain).2 = (runChain request' chain).2 := by
  induction chain with
  | nil => rfl
  | cons e chain ih =>
    have hrest := ih fun f hf => h f (List.mem_cons_of_mem e hf)
    rw [runChain, runChain, h e List.mem_cons_self]
    cases verdict e request' with
    | some failure => rfl
    | none => exact hrest

theorem runChain_of_allows (h : (runChain request chain).2 = none) :
    (runChain request chain).1 = chain.map fun e => .filtered e.name request := by
  induction chain with
  | nil => rfl
  | cons e chain ih =>
    rw [runChain] at h ⊢
    cases hv : verdict e request with
    | some failure => simp [hv] at h
    | none =>
      rw [hv] at h
      rw [List.map_cons, ← ih h]

/-- A chain that turns a request away asks its filters up to the first that objects. -/
theorem runChain_eq_rejected (h : (runChain request chain).2 = some failure) :
    ∃ before e after, chain = before ++ e :: after ∧ (∀ f ∈ before, verdict f request = none) ∧
      verdict e request = some failure ∧
      (runChain request chain).1 = (before ++ [e]).map fun f => .filtered f.name request := by
  induction chain with
  | nil => cases h
  | cons e chain ih =>
    rw [runChain] at h ⊢
    cases hv : verdict e request with
    | some reason =>
      rw [hv] at h
      exact ⟨[], e, chain, rfl, by simp, by rw [hv]; exact h, by simp⟩
    | none =>
      rw [hv] at h
      obtain ⟨before, g, after, hchain, hallow, hobject, hevents⟩ := ih h
      refine ⟨e :: before, g, after, by rw [hchain]; rfl, ?_, hobject, ?_⟩
      · intro f hf
        rcases List.mem_cons.1 hf with rfl | hf
        · exact hv
        · exact hallow f hf
      · rw [List.cons_append, List.map_cons, ← hevents]

theorem rejected_of_runChain (h : (runChain request chain).2 = some failure) :
    ∃ filter reason, failure = .rejected filter reason := by
  obtain ⟨before, e, after, -, -, hobject, -⟩ := runChain_eq_rejected h
  obtain ⟨reason, hreason⟩ := kind_of_verdict hobject
  exact ⟨e.name, reason, hreason⟩

/-- Only requests to filters are logged while filters run. -/
theorem filtered_of_mem_runChain {event : Event} (h : event ∈ (runChain request chain).1) :
    ∃ f ∈ chain, event = .filtered f.name request := by
  cases hresult : (runChain request chain).2 with
  | none =>
    rw [runChain_of_allows hresult] at h
    obtain ⟨f, hf, rfl⟩ := List.mem_map.1 h
    exact ⟨f, hf, rfl⟩
  | some failure =>
    obtain ⟨before, e, after, hchain, -, -, hevents⟩ := runChain_eq_rejected hresult
    rw [hevents] at h
    obtain ⟨f, hf, rfl⟩ := List.mem_map.1 h
    refine ⟨f, ?_, rfl⟩
    rw [hchain, List.append_cons]
    exact List.mem_append_left _ hf

theorem invoked_notMem_runFilters (r : Registry) (request : FilterRequest) (call : Call)
    (args : Arguments) : .invoked call args ∉ (r.runFilters request).1 := by
  intro h
  obtain ⟨e, -, he⟩ := filtered_of_mem_runChain h
  cases he

/-- The filters allow a request exactly if every filter for its command answers yes. -/
theorem runFilters_allows_iff (r : Registry) (request : FilterRequest) :
    (r.runFilters request).2 = none ↔
      ∀ e ∈ r.entries, ∀ check rejection scope, e.handler = .filter check rejection scope →
        (scope = [] ∨ request.command ∈ scope) → check request = .ok true := by
  unfold runFilters
  rw [runChain_allows_iff]
  constructor
  · intro h e he check rejection scope hhandler hscope
    have hmem : e ∈ r.filterChain request.command :=
      (mem_filterChain_iff r _ e).2 ⟨he, (covers_iff e _).2 ⟨_, _, _, hhandler, hscope⟩⟩
    exact (verdict_filter hhandler request).1 (h e hmem)
  · intro h e hmem
    obtain ⟨he, hcovers⟩ := (mem_filterChain_iff r _ e).1 hmem
    obtain ⟨check, rejection, scope, hhandler, hscope⟩ := (covers_iff e _).1 hcovers
    exact (verdict_filter hhandler request).2 (h e he check rejection scope hhandler hscope)

end CommandShell.Registry
