import CommandShell.Coercion.Basic
import CommandShell.Proofs.Value.Typing
/-!
# Coercion gives values of the type asked for

With the built-in rules alone, what `coerce` and `convert` return inhabits the type they were
asked for, down to the elements of nested collections.  No rule gives a value of an ambient or a
custom type.

    builtin.coerce t given = .ok v → Inhabits v t                  (inhabits_of_coerce)
    builtin.convert l t = .ok v → Inhabits v t                     (inhabits_of_convert)
-/

namespace CommandShell.Coercions

/-! ## One literal as each kind of collection -/

section Collections

variable {l : Collection} {e : ValueType} {v : Value}

/-- `read` returns values of the type `e` only. -/
def ReadsInto (read : String → Except CoercionError Value) (e : ValueType) : Prop :=
  ∀ s v, read s = .ok v → Inhabits v e

variable {read : String → Except CoercionError Value}

theorem mem_of_readEach {α β ε : Type} {f : α → Except ε β} {as : List α} {bs : List β}
    (h : readEach f as = .ok bs) {b : β} (hb : b ∈ bs) : ∃ a ∈ as, f a = .ok b := by
  rw [readEach_eq_ok_iff] at h
  have : Except.ok b ∈ as.map f := h ▸ List.mem_map_of_mem hb
  simpa using this

/-- What holds of all that is read holds of the items of a literal. -/
theorem forall_mem_values {P : Value → Prop} (hr : ∀ s v, read s = .ok v → P v)
    {items : List Value} (h : l.values read = .ok items) : ∀ v ∈ items, P v := by
  intro v hv
  obtain ⟨s, -, hs⟩ := mem_of_readEach h hv
  exact hr s v hs

/-- So does it of the values of its entries. -/
theorem forall_mem_entries {P : Value → Prop} (hr : ∀ s v, read s = .ok v → P v)
    {entries : List (String × Value)} (h : l.entries read = .ok entries) :
    (∀ kv ∈ entries, P kv.2) ∧ (Assoc.keys entries).Nodup := by
  obtain ⟨pairs, hpairs, rfl⟩ := except_map_eq_ok h
  refine ⟨fun kv hkv => ?_, Assoc.nodup_keys_ofPairs pairs⟩
  obtain ⟨item, -, hitem⟩ := mem_of_readEach hpairs (Assoc.mem_of_mem_ofPairs hkv)
  unfold Collection.readEntry at hitem
  split at hitem
  · cases hitem
  · next key value _ =>
    split at hitem
    · cases hitem
    · next v hv =>
      cases hitem
      exact hr _ v hv

theorem inhabits_list (hr : ReadsInto read e) (h : (l.values read).map .list = .ok v) :
    Inhabits v (.list e) ∧ Inhabits v (.array e) := by
  obtain ⟨items, hv, rfl⟩ := except_map_eq_ok h
  have := forall_mem_values hr hv
  exact ⟨.list this, .array this⟩

theorem inhabits_set (hr : ReadsInto read e) (h : (l.distinctValues read).map .set = .ok v) :
    Inhabits v (.set e) := by
  obtain ⟨kept, hkept, rfl⟩ := except_map_eq_ok h
  obtain ⟨items, hv, rfl⟩ := except_map_eq_ok hkept
  exact inhabits_set_distinct (forall_mem_values hr hv)

theorem inhabits_map (hr : ReadsInto read e) (h : (l.entries read).map .map = .ok v) :
    Inhabits v (.map e) := by
  obtain ⟨entries, hentries, rfl⟩ := except_map_eq_ok h
  obtain ⟨hvalues, hkeys⟩ := forall_mem_entries hr hentries
  exact .map hvalues hkeys

end Collections

/-! ## Every type -/

theorem inhabits_of_readBool {s : String} {v : Value} (h : readBool s = .ok v) :
    Inhabits v .bool := by
  unfold readBool at h
  split at h
  · cases h; exact .bool _
  · cases h

theorem inhabits_of_readInt {s : String} {v : Value} (h : readInt s = .ok v) :
    Inhabits v .int := by
  unfold readInt at h
  split at h
  · cases h; exact .int _
  · cases h

theorem inhabits_of_readFloat {s : String} {v : Value} (h : readFloat s = .ok v) :
    Inhabits v .float := by
  unfold readFloat at h
  split at h
  · cases h; exact .float _
  · cases h

theorem inhabits_of_readChar {s : String} {v : Value} (h : readChar s = .ok v) :
    Inhabits v .char := by
  unfold readChar at h
  split at h
  · cases h; exact .char _
  · cases h

theorem readsInto_builtin (t : ValueType) : ReadsInto (builtin.read t) t := by
  induction t with
  | bool => intro s v h; exact inhabits_of_readBool h
  | int => intro s v h; exact inhabits_of_readInt h
  | float => intro s v h; exact inhabits_of_readFloat h
  | char => intro s v h; exact inhabits_of_readChar h
  | str => intro s v h; cases h; exact .str s
  | list e ih => intro s v h; rw [builtin_read_eq_convert rfl] at h; exact (inhabits_list ih h).1
  | array e ih => intro s v h; rw [builtin_read_eq_convert rfl] at h; exact (inhabits_list ih h).2
  | set e ih => intro s v h; rw [builtin_read_eq_convert rfl] at h; exact inhabits_set ih h
  | map e ih => intro s v h; rw [builtin_read_eq_convert rfl] at h; exact inhabits_map ih h
  | ambient name => intro s v h; cases h
  | custom name => intro s v h; cases h

theorem inhabits_of_coerce {t : ValueType} {given : Given} {v : Value}
    (h : builtin.coerce t given = .ok v) : Inhabits v t := by
  cases given with
  | text s => exact readsInto_builtin t s v h
  | present =>
    -- A bare flag is a value of a truth value alone.
    cases t with
    | bool => cases h; exact .bool true
    | _ => cases h

theorem inhabits_of_convert {l : Collection} {t : ValueType} {v : Value}
    (h : builtin.convert l t = .ok v) : Inhabits v t := by
  cases t with
  | list e => exact (inhabits_list (readsInto_builtin e) h).1
  | array e => exact (inhabits_list (readsInto_builtin e) h).2
  | set e => exact inhabits_set (readsInto_builtin e) h
  | map e => exact inhabits_map (readsInto_builtin e) h
  | _ => cases h

end CommandShell.Coercions
