import CommandShell.Registry.Basic
import Mathlib.Data.List.Induction
import Mathlib.Data.List.Nodup
/-!
# Names and aliases after any registrations

Entries are registered one after the other; some are refused, some take the place of earlier ones.
What a name leads to afterwards depends on two entries alone: the last one registered under the
name, and the last one that declared it as an alias.

    Coherent r              names and aliases are distinct, an alias leads to who declares it
    entry? name = the last entry of that name                            (entry?_ofEntries)
    other leads to name ↔ the last entry to declare other is the last of that name
                                                                         (alias_ofEntries_iff)
    lookup d.name = some d ↔ no other entry holds d.name as an alias     (lookup_own_name_iff)
-/

namespace CommandShell.Registry

variable {r : Registry} {strategies : StrategySet} {es : List Entry} {d e f : Entry}
  {name other : String}

theorem entry?_eq_none_iff : r.entry? name = none ↔ ∀ e ∈ r.entries, e.name ≠ name := by
  simp [List.find?_eq_none, entry?]

theorem mem_of_entry (h : r.entry? name = some e) : e ∈ r.entries :=
  List.mem_of_find?_eq_some h

theorem name_of_entry (h : r.entry? name = some e) : e.name = name := by
  simpa using List.find?_some h

/-! ## One registration -/

/-- Every name and every alias is there once, and an alias leads to an entry that declares it. -/
structure Coherent (r : Registry) : Prop where
  names : (r.entries.map (·.name)).Nodup
  aliases : (Assoc.keys r.aliases).Nodup
  declared : ∀ p ∈ r.aliases, ∃ e ∈ r.entries, e.name = p.2 ∧ p.1 ∈ e.aliases

theorem coherent_empty (strategies : StrategySet) : Coherent (empty strategies) :=
  ⟨List.nodup_nil, List.nodup_nil, fun _ hp => absurd hp List.not_mem_nil⟩

theorem Coherent.eq_of_name (h : Coherent r) (he : e ∈ r.entries) (hf : f ∈ r.entries)
    (hname : e.name = f.name) : e = f :=
  List.inj_on_of_nodup_map h.names he hf hname

theorem Coherent.entry?_of_mem (h : Coherent r) (he : e ∈ r.entries) :
    r.entry? e.name = some e := by
  cases hfound : r.entry? e.name with
  | none => exact absurd rfl (entry?_eq_none_iff.1 hfound e he)
  | some f => rw [h.eq_of_name (mem_of_entry hfound) he (name_of_entry hfound)]

theorem entries_remove (r : Registry) (name : String) :
    (r.remove name).entries = r.entries.filter fun e => e.name ≠ name := by
  unfold remove
  split
  · rfl
  · next h =>
    have hnone : r.entry? name = none := by simpa using h
    symm
    rw [List.filter_eq_self]
    intro e he
    simpa using entry?_eq_none_iff.1 hnone e he

theorem Coherent.aliases_remove (h : Coherent r) (name : String) :
    (r.remove name).aliases = r.aliases.filter fun p => p.2 ≠ name := by
  unfold remove
  split
  · rfl
  · next hnone =>
    have hnone : r.entry? name = none := by simpa using hnone
    symm
    rw [List.filter_eq_self]
    intro p hp
    obtain ⟨e, he, hname, -⟩ := h.declared p hp
    simpa [hname] using entry?_eq_none_iff.1 hnone e he

theorem entries_add (r : Registry) (e : Entry) :
    (r.add e).entries = (r.entries.filter fun f => f.name ≠ e.name) ++ [e] := by
  show (r.remove e.name).entries ++ [e] = _
  rw [entries_remove]

theorem Coherent.aliases_add (h : Coherent r) (e : Entry) :
    (r.add e).aliases = Assoc.putAll (r.aliases.filter fun p => p.2 ≠ e.name)
      (e.aliases.map fun other => (other, e.name)) := by
  show e.aliases.foldl (fun m other => Assoc.put other e.name m) (r.remove e.name).aliases = _
  rw [h.aliases_remove, Assoc.putAll, List.foldl_map]

theorem strategies_add (r : Registry) (e : Entry) : (r.add e).strategies = r.strategies := by
  show (r.remove e.name).strategies = _
  unfold remove
  split <;> rfl

theorem Coherent.add (h : Coherent r) (e : Entry) : Coherent (r.add e) := by
  refine ⟨?_, ?_, ?_⟩
  · rw [entries_add, List.map_append, List.nodup_append]
    refine ⟨h.names.sublist (List.filter_sublist.map _), by simp, ?_⟩
    intro name hname name' hname'
    obtain ⟨f, hf, rfl⟩ := List.mem_map.1 hname
    rw [List.map_singleton, List.mem_singleton] at hname'
    subst hname'
    simpa using (List.mem_filter.1 hf).2
  · rw [h.aliases_add]
    exact Assoc.nodup_keys_putAll _ (h.aliases.sublist (List.filter_sublist.map _))
  · intro p hp
    rw [h.aliases_add] at hp
    rw [entries_add]
    rcases Assoc.mem_putAll hp with hp | hp
    · obtain ⟨hp, hne⟩ := List.mem_filter.1 hp
      obtain ⟨f, hf, hname, hother⟩ := h.declared p hp
      refine ⟨f, List.mem_append_left _ (List.mem_filter.2 ⟨hf, ?_⟩), hname, hother⟩
      rw [hname]
      exact hne
    · obtain ⟨other, hother, rfl⟩ := List.mem_map.1 hp
      exact ⟨e, List.mem_append_right _ (List.mem_singleton_self e), rfl, hother⟩

theorem entry?_remove (r : Registry) (gone name : String) :
    entry? (r.remove gone) name = if gone = name then none else r.entry? name := by
  unfold entry?
  rw [entries_remove]
  by_cases hname : gone = name
  · rw [if_pos hname, List.find?_eq_none]
    intro f hf
    simpa [hname] using (List.mem_filter.1 hf).2
  · rw [if_neg hname]
    induction r.entries with
    | nil => rfl
    | cons f rest ih =>
      by_cases hgone : f.name = gone
      · have hother : f.name ≠ name := fun h => hname (hgone.symm.trans h)
        rw [List.filter_cons_of_neg (by simpa using hgone), ih,
          List.find?_cons_of_neg (by simpa using hother)]
      · rw [List.filter_cons_of_pos (by simpa using hgone), List.find?_cons, List.find?_cons, ih]

theorem entry?_add (r : Registry) (e : Entry) (name : String) :
    entry? (r.add e) name = if e.name = name then some e else r.entry? name := by
  let before := entry? (r.remove e.name) name
  have hadd : entry? (r.add e) name = before.or ([e].find? fun f => f.name = name) :=
    List.find?_append
  have hremove : before = _ := entry?_remove r e.name name
  rw [hadd, hremove]
  by_cases hname : e.name = name
  · simp [hname]
  · simp [hname]

theorem Coherent.alias_add (h : Coherent r) (e : Entry) (other : String) :
    Assoc.get? other (r.add e).aliases =
      if other ∈ e.aliases then some e.name
      else (Assoc.get? other r.aliases).filter (· ≠ e.name) := by
  rw [h.aliases_add, Assoc.get?_putAll_const, Assoc.get?_filter h.aliases other (· ≠ e.name)]

/-! ## All registrations -/

/-- The entries that are not refused. -/
def accepted (strategies : StrategySet) (es : List Entry) : List Entry :=
  es.filter fun e => ((empty strategies).refusal? e).isNone

/-- The last of the entries that has a name. -/
def lastNamed (es : List Entry) (name : String) : Option Entry :=
  es.reverse.find? fun e => e.name = name

/-- The last of the entries that declares an alias. -/
def lastDeclaring (es : List Entry) (other : String) : Option Entry :=
  es.reverse.find? fun e => other ∈ e.aliases

theorem lastNamed_concat (es : List Entry) (e : Entry) (name : String) :
    lastNamed (es ++ [e]) name = if e.name = name then some e else lastNamed es name := by
  by_cases h : e.name = name <;> simp [lastNamed, h]

theorem lastDeclaring_concat (es : List Entry) (e : Entry) (other : String) :
    lastDeclaring (es ++ [e]) other =
      if other ∈ e.aliases then some e else lastDeclaring es other := by
  by_cases h : other ∈ e.aliases <;> simp [lastDeclaring, h]

theorem name_of_lastNamed (h : lastNamed es name = some e) : e.name = name := by
  simpa using List.find?_some h

theorem mem_aliases_of_lastDeclaring (h : lastDeclaring es other = some e) : other ∈ e.aliases := by
  simpa using List.find?_some h

theorem refusal?_congr (h : r.strategies = strategies) (e : Entry) :
    r.refusal? e = (empty strategies).refusal? e := by
  simp only [refusal?, strategyOf?, h, empty]

theorem registerOrDrop_eq (r : Registry) (e : Entry) :
    r.registerOrDrop e = if (r.refusal? e).isNone then r.add e else r := by
  unfold registerOrDrop register
  cases r.refusal? e <;> rfl

theorem strategies_ofEntries (strategies : StrategySet) (es : List Entry) :
    (ofEntries strategies es).strategies = strategies := by
  induction es using List.reverseRecOn with
  | nil => rfl
  | append_singleton es e ih =>
    rw [ofEntries, List.foldl_append, List.foldl_cons, List.foldl_nil, registerOrDrop_eq]
    split
    · rw [strategies_add]
      exact ih
    · exact ih

theorem ofEntries_concat (strategies : StrategySet) (es : List Entry) (e : Entry) :
    ofEntries strategies (es ++ [e]) =
      if ((empty strategies).refusal? e).isNone then (ofEntries strategies es).add e
      else ofEntries strategies es := by
  rw [← refusal?_congr (strategies_ofEntries strategies es) e, ← registerOrDrop_eq]
  simp [ofEntries]

theorem accepted_concat (strategies : StrategySet) (es : List Entry) (e : Entry) :
    accepted strategies (es ++ [e]) =
      if ((empty strategies).refusal? e).isNone then accepted strategies es ++ [e]
      else accepted strategies es := by
  unfold accepted
  split
  · next h => simp [h]
  · next h => simp [h]

theorem coherent_ofEntries (strategies : StrategySet) (es : List Entry) :
    Coherent (ofEntries strategies es) := by
  induction es using List.reverseRecOn with
  | nil => exact coherent_empty strategies
  | append_singleton es e ih =>
    rw [ofEntries_concat]
    split
    · exact ih.add e
    · exact ih

/-- Of the entries with one name the last is held. -/
theorem entry?_ofEntries (strategies : StrategySet) (es : List Entry) (name : String) :
    entry? (ofEntries strategies es) name = lastNamed (accepted strategies es) name := by
  induction es using List.reverseRecOn with
  | nil => rfl
  | append_singleton es e ih =>
    rw [ofEntries_concat, accepted_concat]
    split
    · rw [entry?_add, lastNamed_concat, ih]
    · exact ih

/-- An alias leads to the last entry that declared it, as long as that one is held. -/
theorem alias_ofEntries_iff (strategies : StrategySet) (es : List Entry) (other name : String) :
    Assoc.get? other (ofEntries strategies es).aliases = some name ↔
      ∃ e, lastDeclaring (accepted strategies es) other = some e ∧
        lastNamed (accepted strategies es) name = some e := by
  induction es using List.reverseRecOn with
  | nil => simp [ofEntries, empty, accepted, lastDeclaring]
  | append_singleton es e ih =>
    rw [ofEntries_concat, accepted_concat]
    split
    · rw [(coherent_ofEntries strategies es).alias_add, lastDeclaring_concat, lastNamed_concat]
      by_cases hother : other ∈ e.aliases
      · rw [if_pos hother, if_pos hother]
        constructor
        · intro h
          rw [if_pos (Option.some.inj h)]
          exact ⟨e, rfl, rfl⟩
        · rintro ⟨f, hf, hnamed⟩
          obtain rfl := Option.some.inj hf
          split at hnamed
          · next hname => rw [hname]
          · rw [name_of_lastNamed hnamed]
      · rw [if_neg hother, if_neg hother, Option.filter_eq_some_iff, ih]
        by_cases hname : e.name = name
        · rw [if_pos hname]
          constructor
          · rintro ⟨-, hne⟩
            simp [hname] at hne
          · rintro ⟨f, hf, hnamed⟩
            obtain rfl := Option.some.inj hnamed
            exact absurd (mem_aliases_of_lastDeclaring hf) hother
        · rw [if_neg hname]
          simp [Ne.symm hname]
    · exact ih

/-! ## A name and itself -/

/-- Another entry that is held was the last to declare the name of an entry as an alias. -/
def Shadowed (strategies : StrategySet) (es : List Entry) (d : Entry) : Prop :=
  ∃ e ∈ (ofEntries strategies es).entries,
    e.name ≠ d.name ∧ lastDeclaring (accepted strategies es) d.name = some e

/-- The last entry to declare a name as an alias gets its calls, if it is held. -/
theorem lookup_of_declared (he : e ∈ (ofEntries strategies es).entries)
    (h : lastDeclaring (accepted strategies es) name = some e) :
    (ofEntries strategies es).lookup name = some e := by
  have hheld := (coherent_ofEntries strategies es).entry?_of_mem he
  have halias : Assoc.get? name (ofEntries strategies es).aliases = some e.name := by
    rw [alias_ofEntries_iff, ← entry?_ofEntries]
    exact ⟨e, h, hheld⟩
  rw [lookup, halias]
  exact hheld

/-- A name that no entry holds as an alias leads to the entry of that name. -/
theorem lookup_of_not_declared
    (h : ¬ ∃ e ∈ (ofEntries strategies es).entries,
      lastDeclaring (accepted strategies es) name = some e) :
    (ofEntries strategies es).lookup name = entry? (ofEntries strategies es) name := by
  rw [lookup]
  cases halias : Assoc.get? name (ofEntries strategies es).aliases with
  | none => rfl
  | some target =>
    obtain ⟨e, hlast, hnamed⟩ := (alias_ofEntries_iff strategies es name target).1 halias
    rw [← entry?_ofEntries] at hnamed
    exact absurd ⟨e, mem_of_entry hnamed, hlast⟩ h

theorem lookup_own_name (hd : d ∈ (ofEntries strategies es).entries) :
    (ofEntries strategies es).lookup d.name = some d ↔ ¬ Shadowed strategies es d := by
  have hcoherent := coherent_ofEntries strategies es
  constructor
  · rintro h ⟨e, he, hne, hlast⟩
    rw [lookup_of_declared he hlast] at h
    exact hne (congrArg Entry.name (Option.some.inj h))
  · intro h
    by_cases hdeclared : ∃ e ∈ (ofEntries strategies es).entries,
        lastDeclaring (accepted strategies es) d.name = some e
    · obtain ⟨e, he, hlast⟩ := hdeclared
      have hname : e.name = d.name := by
        by_contra hne
        exact h ⟨e, he, hne, hlast⟩
      rw [lookup_of_declared he hlast, hcoherent.eq_of_name he hd hname]
    · rw [lookup_of_not_declared hdeclared, hcoherent.entry?_of_mem hd]

theorem command?_eq_some_iff : r.command? name = some d ↔ r.lookup name = some d ∧ d.isCommand := by
  rw [command?, Option.filter_eq_some_iff]

/-- **An entry is found under its own name exactly if no other entry that is held was the last to
declare that name as an alias.**  The same holds of a command and the command that its name leads
to. -/
theorem lookup_own_name_iff (strategies : StrategySet) (es : List Entry) (d : Entry)
    (hd : d ∈ (ofEntries strategies es).entries) :
    ((ofEntries strategies es).lookup d.name = some d ↔ ¬ Shadowed strategies es d) ∧
      (d.isCommand = true →
        ((ofEntries strategies es).command? d.name = some d ↔ ¬ Shadowed strategies es d) ∧
        (¬ Shadowed strategies es d → (ofEntries strategies es).find d.name = d)) := by
  have hlookup := lookup_own_name hd
  refine ⟨hlookup, fun hcommand => ?_⟩
  have hfound :
      (ofEntries strategies es).command? d.name = some d ↔ ¬ Shadowed strategies es d := by
    rw [command?_eq_some_iff, hlookup]
    exact and_iff_left hcommand
  refine ⟨hfound, fun h => ?_⟩
  rw [find, hfound.2 h, Option.getD_some]

/-- A command that takes no arguments and does nothing. -/
def idle (name : String) (aliases : List String) : Entry :=
  { noop with name := name, aliases := aliases }

theorem lookup_own_name_after_alias_is_gone :
    let es := [idle "list" ["ls"], idle "ls" [], idle "list" []]
    idle "ls" [] ∈ (ofEntries Strategy.builtin es).entries ∧
      ¬ Shadowed Strategy.builtin es (idle "ls" []) ∧
      (ofEntries Strategy.builtin es).lookup "ls" = some (idle "ls" []) ∧
      (ofEntries Strategy.builtin es).find "ls" = idle "ls" [] := by
  intro es
  have hentries : (ofEntries Strategy.builtin es).entries = [idle "ls" [], idle "list" []] := rfl
  have hmem : idle "ls" [] ∈ (ofEntries Strategy.builtin es).entries := by
    rw [hentries]
    exact List.mem_cons_self
  have hlast : lastDeclaring (accepted Strategy.builtin es) "ls" = some (idle "list" ["ls"]) := rfl
  have hfree : ¬ Shadowed Strategy.builtin es (idle "ls" []) := by
    rintro ⟨e, he, -, hdeclared⟩
    obtain rfl := Option.some.inj (hlast.symm.trans hdeclared)
    rw [hentries] at he
    have haliases : ["ls"] ∈ [idle "ls" [], idle "list" []].map Entry.aliases :=
      List.mem_map_of_mem he
    exact absurd haliases (by decide)
  obtain ⟨hlookup, hcommand⟩ := lookup_own_name_iff Strategy.builtin es (idle "ls" []) hmem
  exact ⟨hmem, hfree, hlookup.2 hfree, (hcommand rfl).2 hfree⟩

/-- Behind `list` with the alias `ls` the command `ls` is registered and never found. -/
theorem alias_hides_name :
    let r := ofEntries Strategy.builtin [idle "list" ["ls"], idle "ls" []]
    idle "ls" [] ∈ r.commands ∧ r.lookup "ls" = some (idle "list" ["ls"]) ∧
      r.find "ls" = idle "list" ["ls"] ∧ ¬ ∀ d ∈ r.entries, r.lookup d.name = some d := by
  intro r
  have hentries : r.entries = [idle "list" ["ls"], idle "ls" []] := rfl
  have hlookup : r.lookup "ls" = some (idle "list" ["ls"]) := rfl
  refine ⟨?_, hlookup, rfl, fun h => ?_⟩
  · rw [commands, hentries]
    exact List.mem_filter.2 ⟨by simp, rfl⟩
  · have hown : r.lookup "ls" = some (idle "ls" []) := h (idle "ls" []) (by simp [hentries])
    have haliases : ["ls"] = [] :=
      congrArg Entry.aliases (Option.some.inj (hlookup.symm.trans hown))
    cases haliases

end CommandShell.Registry
