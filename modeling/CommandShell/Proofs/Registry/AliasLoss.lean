import CommandShell.Proofs.Registry.Aliases
/-!
# When an alias is lost

An alias belongs to the last entry that declared it.  When that entry is replaced by one that does
not declare it, the alias goes, and an earlier entry that is still held and declares it does not
get it back.

    Orphaned other                      the last entry to declare other is not held any more
    an alias of one entry alone leads to it ↔ it is the entry's own name, or not orphaned
                                                                        (lookup_declared_iff)
    and where it does not, it leads nowhere
-/

namespace CommandShell.Registry

variable {strategies : StrategySet} {es : List Entry} {d e : Entry} {other : String}

/-- The last of the accepted entries to declare an alias is not held any more. -/
def Orphaned (strategies : StrategySet) (es : List Entry) (other : String) : Prop :=
  ∃ e, lastDeclaring (accepted strategies es) other = some e ∧
    e ∉ (ofEntries strategies es).entries

/-- No other entry that is held has the name or declares it as an alias. -/
def OnlyOf (d : Entry) (other : String) (r : Registry) : Prop :=
  ∀ e ∈ r.entries, e.name ≠ d.name → e.name ≠ other ∧ other ∉ e.aliases

/-- What is held was accepted. -/
theorem mem_accepted (hd : d ∈ (ofEntries strategies es).entries) : d ∈ accepted strategies es := by
  have hheld := (coherent_ofEntries strategies es).entry?_of_mem hd
  rw [entry?_ofEntries] at hheld
  exact List.mem_reverse.1 (List.mem_of_find?_eq_some hheld)

/-- An alias that an accepted entry declares was declared last by some entry. -/
theorem exists_lastDeclaring (hd : d ∈ es) (hother : other ∈ d.aliases) :
    ∃ e, lastDeclaring es other = some e := by
  refine Option.isSome_iff_exists.1 ?_
  rw [lastDeclaring, List.find?_isSome]
  exact ⟨d, List.mem_reverse.2 hd, by simpa using hother⟩

/-- Of an alias of one entry alone that entry is the last to declare it, or it is orphaned. -/
theorem lastDeclaring_of_not_orphaned (hd : d ∈ (ofEntries strategies es).entries)
    (hother : other ∈ d.aliases) (honly : OnlyOf d other (ofEntries strategies es))
    (h : ¬ Orphaned strategies es other) :
    lastDeclaring (accepted strategies es) other = some d := by
  obtain ⟨e, hlast⟩ := exists_lastDeclaring (mem_accepted hd) hother
  have he : e ∈ (ofEntries strategies es).entries := by
    by_contra hgone
    exact h ⟨e, hlast, hgone⟩
  have hname : e.name = d.name := by
    by_contra hne
    exact (honly e he hne).2 (mem_aliases_of_lastDeclaring hlast)
  rw [hlast, (coherent_ofEntries strategies es).eq_of_name he hd hname]

/-- An orphaned alias leads to the entry of that name, if there is one. -/
theorem lookup_of_orphaned (h : Orphaned strategies es other) :
    (ofEntries strategies es).lookup other = entry? (ofEntries strategies es) other := by
  obtain ⟨e, hlast, hgone⟩ := h
  refine lookup_of_not_declared ?_
  rintro ⟨f, hf, hdeclared⟩
  obtain rfl := Option.some.inj (hlast.symm.trans hdeclared)
  exact hgone hf

/-- **An alias of one entry alone leads to that entry exactly if it is the name of the entry or the
last entry that declared it is still held.**  Otherwise it leads nowhere. -/
theorem lookup_declared_iff (strategies : StrategySet) (es : List Entry) (d : Entry)
    (other : String) (hd : d ∈ (ofEntries strategies es).entries) (hother : other ∈ d.aliases)
    (honly : OnlyOf d other (ofEntries strategies es)) :
    ((ofEntries strategies es).lookup other = some d ↔
        other = d.name ∨ ¬ Orphaned strategies es other) ∧
      (other ≠ d.name → Orphaned strategies es other →
        (ofEntries strategies es).lookup other = none) := by
  have hcoherent := coherent_ofEntries strategies es
  have hlost (hne : other ≠ d.name) (h : Orphaned strategies es other) :
      (ofEntries strategies es).lookup other = none := by
    rw [lookup_of_orphaned h, entry?_eq_none_iff]
    intro e he hname
    by_cases hsame : e.name = d.name
    · exact hne (hname.symm.trans hsame)
    · exact (honly e he hsame).1 hname
  refine ⟨⟨fun hlookup => ?_, ?_⟩, hlost⟩
  · by_contra hnot
    obtain ⟨hne, horphaned⟩ := not_or.1 hnot
    rw [hlost hne (not_not.1 horphaned)] at hlookup
    cases hlookup
  · rintro (hname | hkept)
    · by_cases horphaned : Orphaned strategies es other
      · rw [lookup_of_orphaned horphaned, hname]
        exact hcoherent.entry?_of_mem hd
      · exact lookup_of_declared hd (lastDeclaring_of_not_orphaned hd hother honly horphaned)
    · exact lookup_of_declared hd (lastDeclaring_of_not_orphaned hd hother honly hkept)

/-- `list` takes the alias `ls` back by being registered again. -/
theorem lookup_declared_after_taking_back :
    let list := idle "list" ["ls"]
    let es := [list, idle "dir" ["ls"], list, idle "dir" []]
    let r := ofEntries Strategy.builtin es
    list ∈ r.entries ∧ "ls" ∈ list.aliases ∧ OnlyOf list "ls" r ∧
      ¬ Orphaned Strategy.builtin es "ls" ∧ r.lookup "ls" = some list := by
  intro list es r
  have hentries : r.entries = [list, idle "dir" []] := rfl
  have hmem : list ∈ r.entries := by
    rw [hentries]
    exact List.mem_cons_self
  have hlast : lastDeclaring (accepted Strategy.builtin es) "ls" = some list := rfl
  have hkept : ¬ Orphaned Strategy.builtin es "ls" := by
    rintro ⟨e, hdeclared, hgone⟩
    obtain rfl := Option.some.inj (hlast.symm.trans hdeclared)
    exact hgone hmem
  have honly : OnlyOf list "ls" r := by
    intro e he hne
    rw [hentries] at he
    rcases List.mem_cons.1 he with rfl | he
    · exact absurd rfl hne
    · obtain rfl := List.mem_singleton.1 he
      exact ⟨by decide, by decide⟩
  have hiff := (lookup_declared_iff Strategy.builtin es list "ls" hmem (by decide) honly).1
  exact ⟨hmem, by decide, honly, hkept, hiff.2 (Or.inr hkept)⟩

/-- `dir` takes the alias `ls` over from `list` and is registered again without it: `list` declares
it alone then, and it leads nowhere. -/
theorem declared_alias_leads_nowhere :
    let list := idle "list" ["ls"]
    let es := [list, idle "dir" ["ls"], idle "dir" []]
    let r := ofEntries Strategy.builtin es
    list ∈ r.entries ∧ "ls" ∈ list.aliases ∧ OnlyOf list "ls" r ∧
      Orphaned Strategy.builtin es "ls" ∧ r.lookup "ls" = none := by
  intro list es r
  have hentries : r.entries = [list, idle "dir" []] := rfl
  have hlast : lastDeclaring (accepted Strategy.builtin es) "ls" = some (idle "dir" ["ls"]) := rfl
  refine ⟨?_, by decide, fun e he hne => ?_, ⟨_, hlast, fun he => ?_⟩, rfl⟩
  · rw [hentries]
    exact List.mem_cons_self
  · rw [hentries] at he
    rcases List.mem_cons.1 he with rfl | he
    · exact absurd rfl hne
    · obtain rfl := List.mem_singleton.1 he
      exact ⟨by decide, by decide⟩
  · have hpairs : ("dir", ["ls"]) ∈ r.entries.map fun e => (e.name, e.aliases) :=
      List.mem_map.2 ⟨_, he, rfl⟩
    rw [hentries] at hpairs
    exact absurd hpairs (by decide)

end CommandShell.Registry
