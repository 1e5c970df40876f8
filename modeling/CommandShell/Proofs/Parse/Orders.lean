import CommandShell.Proofs.Parse.SpanBinding
import CommandShell.Proofs.Parse.Surroundings
/-!
# In which order literals are converted

The literals of a line stand in a table, which is walked in an order that the line does not settle.
The order is of no matter where all literals fit their parameters, and so where there is one of
them at most.  Where some do not fit, parsing fails in every order, and any of them may be the one
that is named.

    BlamesSpan c ps raw e     e names a literal of the line that does not fit its parameter
    the values found in any order are the same                     (get?_of_prefill)
    literals that fit are read alike in all orders                 (spans_parse_of_fit)
    else the failures that orders lead to are those that name one that does not fit
                                                                   (spans_parse_failures)
    a built-in strategy comes to the same in two orders, or to failures that name one each
                                                                   (Strategy.builtin_parse_orders)
    with one collection parameter at most it comes to the same     (Strategy.builtin_parse_of_lone)
-/

namespace CommandShell

/-- The failure names a literal of the table that does not fit its parameter. -/
def BlamesLiteral (c : Coercions) (ps : List Parameter) (table : List (Nat × Collection))
    (e : ParseFailure) : Prop :=
  ∃ i p literal cause, (i, literal) ∈ table ∧ ps[i]? = some p ∧
    c.convert literal p.type = .error cause ∧ e = .coercion p.label cause

/-- The failure names a literal of the line that does not fit the parameter it is bound to. -/
def BlamesSpan (c : Coercions) (ps : List Parameter) (raw : String) (e : ParseFailure) : Prop :=
  BlamesLiteral c ps (bindSpans ps raw.toList).1 e

/-- The order that comes to the literal of one parameter first. -/
def TableOrder.first (i : Nat) : TableOrder where
  walk table := table.filter (fun entry => entry.1 = i) ++ table.filter fun entry => !(entry.1 = i)
  perm table := List.filter_append_perm _ table

variable {c : Coercions} {f : String → Option Value} {o o' : TableOrder} {ctx : ParseContext}
  {ps : List Parameter} {table table' : List (Nat × Collection)}
  {prefilled prefilled' : List (Nat × Value)} {e : ParseFailure} {raw : String}

/-! ## One walk -/

theorem BlamesLiteral.perm (h : BlamesLiteral c ps table e) (hperm : table.Perm table') :
    BlamesLiteral c ps table' e := by
  obtain ⟨i, p, literal, cause, hmem, h⟩ := h
  exact ⟨i, p, literal, cause, hperm.subset hmem, h⟩

theorem BlamesLiteral.cons (h : BlamesLiteral c ps table e) (entry : Nat × Collection) :
    BlamesLiteral c ps (entry :: table) e := by
  obtain ⟨i, p, literal, cause, hmem, h⟩ := h
  exact ⟨i, p, literal, cause, List.mem_cons_of_mem _ hmem, h⟩

/-- A walk that fails names a literal that does not fit. -/
theorem blamesLiteral_of_convertBound (h : convertBound ctx ps table = .error e) :
    BlamesLiteral ctx.coercions ps table e := by
  induction table with
  | nil => cases h
  | cons entry table ih =>
    obtain ⟨i, literal⟩ := entry
    rw [convertBound] at h
    split at h
    · exact (ih h).cons _
    · next p hp =>
      split at h
      · next cause hcause =>
        cases h
        exact ⟨i, p, literal, cause, List.mem_cons_self, hp, hcause, rfl⟩
      · cases hrest : convertBound ctx ps table with
        | error e' =>
          rw [hrest] at h
          cases h
          exact (ih hrest).cons _
        | ok values =>
          rw [hrest] at h
          cases h

/-- A walk that comes to its end has found nothing but literals that fit. -/
theorem fits_of_convertBound (h : convertBound ctx ps table = .ok prefilled) {i : Nat}
    {p : Parameter} {literal : Collection} (hmem : (i, literal) ∈ table) (hp : ps[i]? = some p) :
    ∃ v, ctx.coercions.convert literal p.type = .ok v := by
  induction table generalizing prefilled with
  | nil => cases hmem
  | cons entry table ih =>
    rw [convertBound] at h
    rcases List.mem_cons.1 hmem with rfl | hmem
    · dsimp only at h
      rw [hp] at h
      dsimp only at h
      split at h
      · cases h
      · next v hv => exact ⟨v, hv⟩
    · split at h
      · exact ih h hmem
      · split at h
        · cases h
        · obtain ⟨rest, hrest, -⟩ := except_map_eq_ok h
          exact ih hrest hmem

/-- What it has found for a parameter is the value of its literal. -/
theorem get?_of_convertBound (h : convertBound ctx ps table = .ok prefilled) (i : Nat) :
    Assoc.get? i prefilled = (Assoc.get? i table).bind fun literal =>
      ps[i]?.bind fun p => (ctx.coercions.convert literal p.type).toOption := by
  induction table generalizing prefilled with
  | nil =>
    cases h
    rfl
  | cons entry table ih =>
    obtain ⟨j, literal⟩ := entry
    rw [convertBound] at h
    split at h
    · next hj =>
      rw [ih h, Assoc.get?]
      by_cases hij : j = i
      · subst hij
        simp [hj]
      · rw [if_neg hij]
    · next p hp =>
      split at h
      · cases h
      · next v hv =>
        obtain ⟨rest, hrest, rfl⟩ := except_map_eq_ok h
        rw [Assoc.get?, Assoc.get?]
        by_cases hij : j = i
        · subst hij
          simp [hp, hv, Except.toOption]
        · rw [if_neg hij, if_neg hij, ih hrest]

/-! ## In any order -/

theorem blamesLiteral_of_prefill (h : prefill ctx ps table = .error e) :
    BlamesLiteral ctx.coercions ps table e :=
  (blamesLiteral_of_convertBound h).perm (ctx.order.perm table)

/-- A table is converted in every order or in none. -/
theorem exists_prefill_iff :
    (∃ prefilled, prefill ctx ps table = .ok prefilled) ↔
      ∀ e, ¬ BlamesLiteral ctx.coercions ps table e := by
  constructor
  · rintro ⟨prefilled, h⟩ e ⟨i, p, literal, cause, hmem, hp, hcause, -⟩
    obtain ⟨v, hv⟩ := fits_of_convertBound h ((ctx.order.perm table).symm.subset hmem) hp
    cases hcause.symm.trans hv
  · intro h
    cases hwalk : prefill ctx ps table with
    | ok prefilled => exact ⟨prefilled, rfl⟩
    | error e => exact absurd (blamesLiteral_of_prefill hwalk) (h e)

/-- Whatever the order, a parameter is given the value of its literal. -/
theorem get?_of_prefill (hkeys : (Assoc.keys table).Nodup)
    (h : prefill ctx ps table = .ok prefilled) (i : Nat) :
    Assoc.get? i prefilled = (Assoc.get? i table).bind fun literal =>
      ps[i]?.bind fun p => (ctx.coercions.convert literal p.type).toOption := by
  rw [get?_of_convertBound h, Assoc.get?_perm (ctx.order.perm table) hkeys]

/-- Each parameter that a literal is bound to has the value that the literal converts to, and no
other parameter has one. -/
theorem prefill_ok (hkeys : (Assoc.keys table).Nodup) (h : prefill ctx ps table = .ok prefilled)
    {i : Nat} {p : Parameter} (hp : ps[i]? = some p) :
    (Assoc.get? i table = none ∧ Assoc.get? i prefilled = none) ∨
      ∃ literal v, Assoc.get? i table = some literal ∧ Assoc.get? i prefilled = some v ∧
        ctx.coercions.convert literal p.type = .ok v := by
  have hvalue := get?_of_prefill hkeys h i
  cases hliteral : Assoc.get? i table with
  | none =>
    rw [hliteral] at hvalue
    exact Or.inl ⟨rfl, hvalue⟩
  | some literal =>
    have hmem := (ctx.order.perm table).symm.subset (Assoc.mem_of_get? hliteral)
    obtain ⟨v, hv⟩ := fits_of_convertBound h hmem hp
    rw [hliteral, Option.bind_some, hp, Option.bind_some, hv] at hvalue
    exact Or.inr ⟨literal, v, rfl, hvalue, hv⟩

/-- A literal that does not fit is named in the order that comes to it first. -/
theorem prefill_first (hkeys : (Assoc.keys table).Nodup) {i : Nat} {p : Parameter}
    {literal : Collection} {cause : CoercionError} (hmem : (i, literal) ∈ table)
    (hp : ps[i]? = some p) (hcause : c.convert literal p.type = .error cause) :
    prefill ⟨c, f, .first i⟩ ps table = .error (.coercion p.label cause) := by
  have hin : (i, literal) ∈ table.filter fun entry => entry.1 = i := by simpa using hmem
  obtain ⟨entry, rest, hwalk⟩ := List.exists_cons_of_ne_nil (List.ne_nil_of_mem hin)
  have hentry : entry = (i, literal) := by
    have hfirst : entry ∈ table ∧ entry.1 = i := by
      have hself : entry ∈ table.filter fun entry => entry.1 = i := hwalk ▸ List.mem_cons_self
      simpa using hself
    have hget := Assoc.get?_of_mem hkeys hfirst.1
    rw [hfirst.2, Assoc.get?_of_mem hkeys hmem] at hget
    exact Prod.ext hfirst.2 (Option.some.inj hget).symm
  rw [prefill, TableOrder.first]
  dsimp only
  rw [hwalk, hentry, List.cons_append, convertBound]
  simp only [hp, hcause]

/-! ## Parsing -/

/-- A line whose literals fit is read alike in all orders. -/
theorem spans_parse_of_fit (h : ∀ e, ¬ BlamesSpan c ps raw e) (o o' : TableOrder) :
    Strategy.spans.parse ps raw ⟨c, f, o⟩ = Strategy.spans.parse ps raw ⟨c, f, o'⟩ := by
  have hkeys := nodup_bindSpans ps raw.toList
  have hread (o : TableOrder) :
      ∃ values, prefill ⟨c, f, o⟩ ps (bindSpans ps raw.toList).1 = .ok values :=
    exists_prefill_iff.2 h
  obtain ⟨values, hvalues⟩ := hread o
  obtain ⟨values', hvalues'⟩ := hread o'
  have hsame (i : Nat) : Assoc.get? i values = Assoc.get? i values' :=
    (get?_of_prefill hkeys hvalues i).trans (get?_of_prefill hkeys hvalues' i).symm
  simp only [Strategy.spans, hvalues, hvalues']
  refine resolve_of_presets (fun p hp => ?_) hsame _ _
  rfl

/-- A line with a literal that does not fit is not read in any order. -/
theorem exists_spans_parse_error (h : BlamesSpan c ps raw e) (o : TableOrder) :
    ∃ e', Strategy.spans.parse ps raw ⟨c, f, o⟩ = .error e' ∧ BlamesSpan c ps raw e' := by
  cases hwalk : prefill ⟨c, f, o⟩ ps (bindSpans ps raw.toList).1 with
  | ok values => exact absurd h (exists_prefill_iff.1 ⟨values, hwalk⟩ e)
  | error e' =>
    refine ⟨e', ?_, blamesLiteral_of_prefill hwalk⟩
    simp only [Strategy.spans, hwalk]

/-- **Where literals do not fit, the failures that orders lead to are those that name one of
them.** -/
theorem spans_parse_failures (hsome : ∃ e, BlamesSpan c ps raw e) (e : ParseFailure) :
    (∃ order, Strategy.spans.parse ps raw ⟨c, f, order⟩ = .error e) ↔ BlamesSpan c ps raw e := by
  constructor
  · rintro ⟨order, herror⟩
    obtain ⟨_, hsome⟩ := hsome
    obtain ⟨e', herror', hblames⟩ := exists_spans_parse_error (f := f) hsome order
    rw [herror] at herror'
    cases herror'
    exact hblames
  · rintro ⟨i, p, literal, cause, hmem, hp, hcause, rfl⟩
    refine ⟨.first i, ?_⟩
    simp only [Strategy.spans, prefill_first (nodup_bindSpans ps raw.toList) hmem hp hcause]

/-- Neither literal fits, and the order settles which one is named. -/
example :
    let ps := [Parameter.flag "sizes" (.list .int), .flag "limits" (.map .int)]
    let raw := "--sizes [a] --limits \x7bb:c\x7d"
    let parse := fun order => Strategy.spans.parse ps raw ⟨.builtin, fun _ => none, order⟩
    parse (.first 0) = .error (.coercion "--sizes" (.invalid "int" "a")) ∧
      parse (.first 1) = .error (.coercion "--limits" (.invalid "int" "c")) :=
  ⟨rfl, rfl⟩

namespace Strategy

variable {entry : String × Strategy}

/-- Of the built-in strategies only the one with spans walks a table. -/
theorem orderless_or_spans (hs : entry ∈ builtin) :
    (∀ ps raw c f o o', entry.2.parse ps raw ⟨c, f, o⟩ = entry.2.parse ps raw ⟨c, f, o'⟩) ∨
      entry.2 = spans := by
  simp only [builtin, List.mem_cons, List.not_mem_nil, or_false] at hs
  rcases hs with rfl | rfl | rfl | rfl
  · refine Or.inl fun ps raw c f o o' => resolve_of_presets (fun p hp => ?_) (fun _ => rfl) _ _
    rfl
  · refine Or.inl fun ps raw c f o o' => resolve_of_presets (fun p hp => ?_) (fun _ => rfl) _ _
    rfl
  · refine Or.inl fun ps raw c f o o' => readEach_rawValue_of_presets (fun p hp => ?_) raw
    rfl
  · exact Or.inr rfl

/-- **In two orders a built-in strategy comes to the same**, but that each may name another of the
literals that do not fit. -/
theorem builtin_parse_orders (hs : entry ∈ builtin) (c : Coercions) (f : String → Option Value)
    (ps : List Parameter) (raw : String) (o o' : TableOrder) :
    entry.2.parse ps raw ⟨c, f, o⟩ = entry.2.parse ps raw ⟨c, f, o'⟩ ∨
      ∃ e e', entry.2.parse ps raw ⟨c, f, o⟩ = .error e ∧
        entry.2.parse ps raw ⟨c, f, o'⟩ = .error e' ∧
        BlamesSpan c ps raw e ∧ BlamesSpan c ps raw e' := by
  rcases orderless_or_spans hs with hsame | hspans
  · exact Or.inl (hsame ps raw c f o o')
  · rw [hspans]
    by_cases hfits : ∀ e, ¬ BlamesSpan c ps raw e
    · exact Or.inl (spans_parse_of_fit hfits o o')
    · obtain ⟨e, he⟩ := not_forall_not.1 hfits
      obtain ⟨e₁, herror, hblames⟩ := exists_spans_parse_error (f := f) he o
      obtain ⟨e₂, herror', hblames'⟩ := exists_spans_parse_error (f := f) he o'
      exact Or.inr ⟨e₁, e₂, herror, herror', hblames, hblames'⟩

end Strategy

/-! ## One literal at most -/

theorem length_openSeats_nil (n : Nat) (ps : List Parameter) :
    (openSeats [] n ps).length = (ps.filter fun p => p.type.isCollection).length := by
  induction ps generalizing n with
  | nil => rfl
  | cons p ps ih =>
    rw [openSeats, List.filter_cons]
    cases p.type.isCollection with
    | true => simp [ih]
    | false => simp [ih]

/-- No more literals are bound than there are collection parameters. -/
theorem length_bindSpans_le (ps : List Parameter) (raw : List Char) :
    (bindSpans ps raw).1.length ≤ (ps.filter fun p => p.type.isCollection).length := by
  have hseats : Assoc.keys (bindSpans ps raw).1 ⊆ openSeats [] 0 ps := fun i hi =>
    mem_openSeats_iff.2 ⟨List.not_mem_nil, i, (Nat.zero_add i).symm, collects_of_mem_bindSpans hi⟩
  have hlength := (List.subperm_of_subset (nodup_bindSpans ps raw) hseats).length_le
  rwa [length_openSeats_nil, Assoc.keys, List.length_map] at hlength

/-- Of one literal there is one failure at most. -/
theorem BlamesLiteral.unique {e' : ParseFailure} (h : BlamesLiteral c ps table e)
    (h' : BlamesLiteral c ps table e') (hlone : table.length ≤ 1) : e = e' := by
  obtain ⟨i, p, literal, cause, hmem, hp, hcause, rfl⟩ := h
  obtain ⟨j, q, literal', cause', hmem', hq, hcause', rfl⟩ := h'
  obtain ⟨entry, rfl⟩ := List.length_eq_one_iff.1
    (Nat.le_antisymm hlone (List.length_pos_of_mem hmem))
  obtain rfl := List.mem_singleton.1 hmem
  obtain ⟨rfl, rfl⟩ := Prod.mk.inj (List.mem_singleton.1 hmem')
  obtain rfl := Option.some.inj (hp.symm.trans hq)
  obtain rfl := Except.error.inj (hcause.symm.trans hcause')
  rfl

/-- With one collection parameter at most, a built-in strategy comes to the same in all orders. -/
theorem Strategy.builtin_parse_of_lone {entry : String × Strategy} (hs : entry ∈ builtin)
    (h : (ps.filter fun p => p.type.isCollection).length ≤ 1) (raw : String) (o o' : TableOrder) :
    entry.2.parse ps raw ⟨c, f, o⟩ = entry.2.parse ps raw ⟨c, f, o'⟩ := by
  rcases builtin_parse_orders hs c f ps raw o o' with hsame | ⟨e, e', he, he', hblames, hblames'⟩
  · exact hsame
  · rw [he, he', hblames.unique hblames' (Nat.le_trans (length_bindSpans_le ps raw.toList) h)]

end CommandShell
