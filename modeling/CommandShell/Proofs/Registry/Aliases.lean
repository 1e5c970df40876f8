import CommandShell.Proofs.Registry.Names
/-!
# Aliases lead to who declares them

An alias is in the table as long as the entry that it leads to is held and declares it.  When an
entry takes the place of another, the aliases of the old one go, and those that the new one
declares come.

    (other, name) in the table → the entry of that name declares other      (Coherent.declarer)
    lookup name = some d → d has that name or declares it                 (Coherent.lookup_cases)
    an alias that a replacement does not declare leads to no entry of that name any more
                                                              (aliases_lead_to_declarers)
-/

namespace CommandShell.Registry

variable {r r' : Registry} {strategies : StrategySet} {es after : List Entry}
  {d e old new : Entry} {name other : String}

/-! ## In one registry -/

/-- An alias leads to an entry that is held and declares it. -/
theorem Coherent.declarer (h : Coherent r) {p : String × String} (hp : p ∈ r.aliases) :
    ∃ d, r.entry? p.2 = some d ∧ p.1 ∈ d.aliases := by
  obtain ⟨d, hd, hname, hother⟩ := h.declared p hp
  have hheld := h.entry?_of_mem hd
  rw [hname] at hheld
  exact ⟨d, hheld, hother⟩

/-- What a name leads to is held, and it is called so or declares the name as an alias. -/
theorem Coherent.lookup_cases (h : Coherent r) (hd : r.lookup name = some d) :
    d ∈ r.entries ∧ (d.name = name ∨ name ∈ d.aliases) := by
  refine ⟨mem_of_entry hd, ?_⟩
  unfold lookup at hd
  cases halias : Assoc.get? name r.aliases with
  | none =>
    rw [halias] at hd
    exact Or.inl (name_of_entry hd)
  | some target =>
    rw [halias] at hd
    obtain ⟨e, he, hother⟩ := h.declarer (Assoc.mem_of_get? halias)
    obtain rfl : e = d := Option.some.inj (he.symm.trans hd)
    exact Or.inr hother

/-- A name that leads to an entry of another name is an alias of that entry. -/
theorem alias_of_lookup (h : r.lookup other = some d) (hne : other ≠ d.name) :
    Assoc.get? other r.aliases = some d.name := by
  unfold lookup at h
  cases halias : Assoc.get? other r.aliases with
  | none =>
    rw [halias] at h
    exact absurd (name_of_entry h).symm hne
  | some target =>
    rw [halias] at h
    exact congrArg some (name_of_entry h).symm

/-! ## Replacing an entry -/

theorem register_eq_ok_iff :
    r.register new = (.ok (), r') ↔ r.refusal? new = none ∧ r.add new = r' := by
  unfold register
  cases r.refusal? new <;> simp

/-- An alias of an entry that is replaced goes with it, unless the new one declares it. -/
theorem Coherent.lookup_add (h : Coherent r) (hold : r.lookup other = some old)
    (hname : old.name = new.name) (hother : other ∉ new.aliases) (hne : other ≠ new.name) :
    (r.add new).lookup other = r.entry? other := by
  have halias : Assoc.get? other r.aliases = some new.name := by
    rw [← hname]
    exact alias_of_lookup hold (by rw [hname]; exact hne)
  have hgone : Assoc.get? other (r.add new).aliases = none := by
    rw [h.alias_add, if_neg hother, halias]
    simp
  rw [lookup, hgone, Option.getD_none, entry?_add, if_neg (Ne.symm hne)]

/-- Of an entry that was registered and what came after it, only what came after it may have taken
its place. -/
theorem lastNamed_accepted_append (hnew : ((empty strategies).refusal? new).isNone)
    (h : lastNamed (accepted strategies (es ++ new :: after)) new.name = some d) :
    d = new ∨ d ∈ after := by
  have hsplit : accepted strategies (es ++ new :: after) =
      accepted strategies es ++ new :: accepted strategies after := by
    unfold accepted
    rw [List.filter_append, List.filter_cons_of_pos (by simpa using hnew)]
  have hnewest : lastNamed (accepted strategies (es ++ new :: after)) new.name =
      (lastNamed (accepted strategies after) new.name).or (some new) := by
    rw [hsplit, lastNamed, List.reverse_append, List.reverse_cons, List.append_assoc,
      List.find?_append, List.singleton_append, List.find?_cons_of_pos (by simp)]
    rfl
  rw [hnewest] at h
  rcases Option.or_eq_some_iff.1 h with hlater | ⟨-, hd⟩
  · have hmem := List.mem_of_find?_eq_some hlater
    exact Or.inr (List.mem_of_mem_filter (List.mem_reverse.1 hmem))
  · exact Or.inl (Option.some.inj hd).symm

/-- **Aliases never dangle and never mislead.**  Whatever was registered, each alias leads to an
entry that is held and declares it, so that a name leads only to an entry that is called so or
declares it.  When an entry takes the place of another, an alias that it does not declare leads to
the entry called so, if there is one, and it never leads to an entry of the replaced name again
unless one that declares it is registered later. -/
theorem aliases_lead_to_declarers (strategies : StrategySet) (es : List Entry) :
    let r := ofEntries strategies es
    (∀ p ∈ r.aliases, ∃ d, r.entry? p.2 = some d ∧ p.1 ∈ d.aliases) ∧
      (∀ name d, r.lookup name = some d → d.name = name ∨ name ∈ d.aliases) ∧
      ∀ old new r', r.entry? new.name = some old → r.register new = (.ok (), r') →
        ∀ other ∈ old.aliases, other ∉ new.aliases →
          (r.lookup other = some old → other ≠ new.name → r'.lookup other = r.entry? other) ∧
          ∀ after d, (ofEntries strategies (es ++ new :: after)).lookup other = some d →
            d.name = new.name → other = new.name ∨ d ∈ after ∧ other ∈ d.aliases := by
  intro r
  have hcoherent : Coherent r := coherent_ofEntries strategies es
  refine ⟨fun p hp => hcoherent.declarer hp, fun name d hd => (hcoherent.lookup_cases hd).2, ?_⟩
  intro old new r' hreplaced hregister other _ hother
  obtain ⟨hrefusal, rfl⟩ := register_eq_ok_iff.1 hregister
  constructor
  · intro hold hne
    exact hcoherent.lookup_add hold (name_of_entry hreplaced) hother hne
  · intro after d hd hname
    have hlater := coherent_ofEntries strategies (es ++ new :: after)
    obtain ⟨hheld, hcalled | hdeclares⟩ := hlater.lookup_cases hd
    · exact Or.inl (hcalled.symm.trans hname)
    · -- The entry that is held under the name was registered with `new` or later.
      have hlast := hlater.entry?_of_mem hheld
      rw [entry?_ofEntries, hname] at hlast
      have hnew : ((empty strategies).refusal? new).isNone := by
        rw [← refusal?_congr (strategies_ofEntries strategies es) new, hrefusal]
        rfl
      rcases lastNamed_accepted_append hnew hlast with rfl | hafter
      · exact absurd hdeclares hother
      · exact Or.inr ⟨hafter, hdeclares⟩

theorem alias_goes_with_replaced :
    let first := idle "greet" ["hi", "hello"]
    let second := idle "greet" ["hello"]
    let r := ofEntries Strategy.builtin [first]
    r.lookup "hi" = some first ∧ r.register second = (.ok (), r.add second) ∧
      (r.add second).lookup "hi" = none ∧ (r.add second).lookup "hello" = some second ∧
      ∀ after d, (ofEntries Strategy.builtin ([first] ++ second :: after)).lookup "hi" = some d →
        d.name = "greet" → d ∈ after ∧ "hi" ∈ d.aliases := by
  intro first second r
  have hold : r.lookup "hi" = some first := rfl
  have hregister : r.register second = (.ok (), r.add second) := rfl
  obtain ⟨-, -, hreplaced⟩ := aliases_lead_to_declarers Strategy.builtin [first]
  obtain ⟨hgone, hnever⟩ := hreplaced first second (r.add second) rfl hregister "hi" (by decide)
    (by decide)
  refine ⟨hold, hregister, hgone hold (by decide), rfl, fun after d hd hname => ?_⟩
  rcases hnever after d hd hname with hown | hlater
  · exact absurd hown (by decide)
  · exact hlater

end CommandShell.Registry
