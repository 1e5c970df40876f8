import CommandShell.Proofs.Coercion.Soundness
import CommandShell.Proofs.Value.Distinct
/-!
# Sets are lists without later duplicates

A literal read as a set is the same literal read as a list, less each value to which an earlier one
is equal.  Every value that is read is proper, as long as the registered coercers give proper
values; so equality is what it should be among them, however deep they are nested.

    what a type and a literal give is proper                     (proper_of_coerce)
    a set fails as the list fails; else it keeps the first of each group of equal values
                                                                 (setOf_drops_later_duplicates)
-/

namespace CommandShell.Coercions

open CommandShell.Value

/-! ## What is read is proper -/

/-- The registered coercers give proper values: no map of theirs has a key twice. -/
def GivesProper (c : Coercions) : Prop :=
  ∀ type coerce, Assoc.get? type c.custom = some coerce → ∀ s v, coerce s = .ok v → v.Proper

variable {c : Coercions}

theorem proper_of_fillForm {type : String} {given : Given} {v : Value}
    (h : c.fillForm type given = .ok v) : v.Proper := by
  unfold fillForm at h
  split at h
  · cases h
  · dsimp only at h
    split at h
    · cases h
    · cases h
    · cases h; trivial

theorem proper_of_applyCustom {coerce : String → Except CoercionError Value}
    (hc : ∀ s v, coerce s = .ok v → v.Proper) {t : ValueType} {given : Given} {v : Value}
    (h : applyCustom coerce t given = .ok v) : v.Proper := by
  cases given with
  | present => cases h
  | text s => exact hc s v h

/-- What a type and a literal give is proper, by recursion over the type. -/
theorem proper_of_coerce (hc : c.GivesProper) (t : ValueType) {given : Given} {v : Value}
    (h : c.coerce t given = .ok v) : v.Proper := by
  cases hcustom : Assoc.get? t.display c.custom with
  | some coerce =>
    rw [Coercions.coerce.eq_def, hcustom] at h
    exact proper_of_applyCustom (hc t.display coerce hcustom) h
  | none =>
    rw [coerce.eq_def, hcustom] at h
    cases given with
    | present =>
      cases t with
      | bool => cases h; trivial
      | custom name => exact proper_of_fillForm h
      | _ => cases h
    | text s =>
      cases t with
      | bool => exact (inhabits_of_readBool h).proper
      | int => exact (inhabits_of_readInt h).proper
      | float => exact (inhabits_of_readFloat h).proper
      | char => exact (inhabits_of_readChar h).proper
      | str => cases h; trivial
      | list e =>
        obtain ⟨items, hitems, rfl⟩ := except_map_eq_ok h
        exact (properItems_iff items).2
          (forall_mem_values (fun _ _ hread => proper_of_coerce hc e hread) hitems)
      | array e =>
        obtain ⟨items, hitems, rfl⟩ := except_map_eq_ok h
        exact (properItems_iff items).2
          (forall_mem_values (fun _ _ hread => proper_of_coerce hc e hread) hitems)
      | set e =>
        obtain ⟨kept, hkept, rfl⟩ := except_map_eq_ok h
        obtain ⟨items, hitems, rfl⟩ := except_map_eq_ok hkept
        have hproper := forall_mem_values (fun _ _ hread => proper_of_coerce hc e hread) hitems
        exact (properItems_iff _).2 fun w hw => hproper w (mem_of_mem_distinct hw)
      | map e =>
        obtain ⟨entries, hentries, rfl⟩ := except_map_eq_ok h
        obtain ⟨hvalues, hkeys⟩ :=
          forall_mem_entries (fun _ _ hread => proper_of_coerce hc e hread) hentries
        exact ⟨hkeys, (properEntries_iff entries).2 hvalues⟩
      | ambient name => cases h
      | custom name => exact proper_of_fillForm h

/-! ## Lists and sets -/

/-- A literal is a list and a set, or neither for the same reason. -/
theorem listOf_setOf_cases (c : Coercions) (l : Collection) (e : ValueType) :
    (∃ error, c.listOf l e = .error error ∧ c.setOf l e = .error error) ∨
      ∃ items, l.values (c.read e) = .ok items ∧ c.listOf l e = .ok (.list items) ∧
        c.setOf l e = .ok (.set (distinct items)) := by
  unfold listOf setOf Collection.distinctValues
  cases l.values (c.read e) with
  | error error => exact Or.inl ⟨error, rfl, rfl⟩
  | ok items => exact Or.inr ⟨items, rfl, rfl, rfl⟩

/-- **A set is a list without later duplicates.**  A literal cannot be read as a set exactly if it
cannot be read as a list, for the same reason.  Otherwise the set holds the values at the first
positions of the list, in their order; no two of them are equal, in either order; and a value of the
list has its equal in the set exactly if there is no NaN in it.  The test for equality that decides
all this is `Equal`. -/
theorem setOf_drops_later_duplicates (hc : c.GivesProper) (l : Collection) (e : ValueType) :
    (∀ error, c.setOf l e = .error error ↔ c.listOf l e = .error error) ∧
    ∀ v, c.listOf l e = .ok v → ∃ items kept, v = .list items ∧ c.setOf l e = .ok (.set kept) ∧
      kept.Sublist items ∧
      (∃ positions : List Nat, positions.Pairwise (· < ·) ∧
        (∀ i, i ∈ positions ↔ IsFirst items i) ∧
        kept.map some = positions.map fun i => items[i]?) ∧
      (kept.Pairwise fun v w => ¬ Equal v w ∧ ¬ Equal w v) ∧
      (∀ v ∈ items, (∃ w ∈ kept, Equal w v) ↔ v.NanFree) ∧
      ∀ v ∈ items, ∀ w ∈ items, beq v w = true ↔ Equal v w := by
  rcases listOf_setOf_cases c l e with ⟨error, hlist, hset⟩ | ⟨items, hvalues, hlist, hset⟩
  · rw [hlist, hset]
    exact ⟨fun _ => by simp, fun v hv => by cases hv⟩
  · have hproper : ∀ v ∈ items, v.Proper :=
      forall_mem_values (fun _ _ hread => proper_of_coerce hc e hread) hvalues
    rw [hlist, hset]
    refine ⟨fun error => by simp, fun v hv => ?_⟩
    obtain rfl := Except.ok.inj hv
    exact ⟨items, distinct items, rfl, rfl, distinct_sublist items, exists_positions hproper,
      pairwise_not_equal_distinct hproper, fun v hv => exists_equal_distinct_iff hproper hv,
      fun v hv w hw => beq_iff_equal (hproper v hv) (hproper w hw)⟩

/-- The letters of a text, each a key without a value. -/
def keysOf (s : String) : List (String × Value) :=
  Assoc.ofPairs (s.toList.map fun letter => (String.ofList [letter], .null))

def lettersOf (s : String) : Value := .map (keysOf s)

/-- The built-in rules and a coercer of texts to their letters. -/
def letters : Coercions := builtin.register "letters" fun s => .ok (lettersOf s)

theorem null_of_mem_keysOf {s : String} {e : String × Value} (h : e ∈ keysOf s) : e.2 = .null := by
  obtain ⟨letter, -, rfl⟩ := List.mem_map.1 (Assoc.mem_of_mem_ofPairs h)
  rfl

theorem proper_lettersOf (s : String) : (lettersOf s).Proper := by
  refine ⟨Assoc.nodup_keys_ofPairs _, (properEntries_iff _).2 fun e he => ?_⟩
  rw [null_of_mem_keysOf he]
  trivial

theorem nanFree_lettersOf (s : String) : (lettersOf s).NanFree := by
  refine (nanFreeEntries_iff _).2 fun e he => ?_
  rw [null_of_mem_keysOf he]
  trivial

theorem givesProper_letters : letters.GivesProper := by
  intro type coerce hcoerce s v hv
  have hnamed : Assoc.get? type letters.custom =
      if "letters" = type then some fun s => .ok (lettersOf s) else none := rfl
  rw [hnamed] at hcoerce
  split at hcoerce
  · obtain rfl := Option.some.inj hcoerce
    obtain rfl := Except.ok.inj hv
    exact proper_lettersOf s
  · cases hcoerce

/-- Two maps with the same letters in another order are equal, and the first of them is kept. -/
theorem setOf_keeps_first_letters :
    letters.GivesProper ∧
    letters.listOf ⟨.round, ["ab", "ba", "b"]⟩ (.custom "letters") =
      .ok (.list [lettersOf "ab", lettersOf "ba", lettersOf "b"]) ∧
    letters.setOf ⟨.round, ["ab", "ba", "b"]⟩ (.custom "letters") =
      .ok (.set [lettersOf "ab", lettersOf "b"]) ∧
    ∃ w ∈ [lettersOf "ab", lettersOf "b"], Equal w (lettersOf "ba") := by
  have hlist : letters.listOf ⟨.round, ["ab", "ba", "b"]⟩ (.custom "letters") =
      .ok (.list [lettersOf "ab", lettersOf "ba", lettersOf "b"]) := rfl
  have hset : letters.setOf ⟨.round, ["ab", "ba", "b"]⟩ (.custom "letters") =
      .ok (.set [lettersOf "ab", lettersOf "b"]) := rfl
  refine ⟨givesProper_letters, hlist, hset, ?_⟩
  obtain ⟨items, kept, hitems, hkept, -, -, -, hcover, -⟩ :=
    (setOf_drops_later_duplicates givesProper_letters ⟨.round, ["ab", "ba", "b"]⟩
      (.custom "letters")).2 _ hlist
  obtain rfl := Value.list.inj hitems
  obtain rfl := Value.set.inj (Except.ok.inj (hset.symm.trans hkept))
  exact (hcover (lettersOf "ba") (by simp)).2 (nanFree_lettersOf "ba")

end CommandShell.Coercions
