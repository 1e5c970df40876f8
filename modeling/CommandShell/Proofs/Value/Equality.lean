import CommandShell.Proofs.Json.Equality
import CommandShell.Value.Basic
import Mathlib.Data.List.Perm.Subperm
/-!
# When two values are equal

`Equal` says what equality of values means, rule by rule: lists and sets by order, maps whatever
their order, floats as numbers, handles by what they stand for.  It is symmetric and transitive, and
a value is equal to itself unless there is a NaN in it.  The test that the library runs looks
through the entries of one map only; it is right since a map has each key once.

    v.Proper           every map in v has each key once
    equality is symmetric and transitive                         (linked_equal)
    Equal v v ↔ v.NanFree                                        (equal_self_iff)
    beq v w = true ↔ Equal v w, for proper values                (beq_iff_equal)
-/

namespace CommandShell

/-! ## Relations on optional values -/

theorem linked_optionRel {α : Type} {R : α → α → Prop} {o : Option α}
    (h : ∀ a, o = some a → Linked R a) : Linked (Option.Rel R) o := by
  intro p hp
  cases hp with
  | none => exact ⟨.none, fun _ hq => hq⟩
  | some hab =>
    obtain ⟨hsymm, htrans⟩ := h _ rfl _ hab
    refine ⟨.some hsymm, fun q hq => ?_⟩
    cases hq with
    | some hbc => exact .some (htrans _ hbc)

theorem optionRel_some_iff {α : Type} {R : α → α → Prop} (a : α) (o : Option α) :
    Option.Rel R (some a) o ↔ ∃ b, o = some b ∧ R a b := by
  constructor
  · rintro ⟨h⟩
    exact ⟨_, rfl, h⟩
  · rintro ⟨b, rfl, h⟩
    exact .some h

theorem isSome_iff_of_optionRel {α : Type} {R : α → α → Prop} {o p : Option α}
    (h : Option.Rel R o p) : o.isSome ↔ p.isSome := by
  cases h <;> simp

namespace Value

/-! ## What is in a value -/

mutual

/-- Every map in the value has each key once. -/
def Proper : Value → Prop
  | list items => ProperItems items
  | set items => ProperItems items
  | map entries => (Assoc.keys entries).Nodup ∧ ProperEntries entries
  | _ => True

def ProperItems : List Value → Prop
  | [] => True
  | v :: rest => Proper v ∧ ProperItems rest

def ProperEntries : List (String × Value) → Prop
  | [] => True
  | (_, v) :: rest => Proper v ∧ ProperEntries rest

end

mutual

/-- No float in the value is NaN. -/
def NanFree : Value → Prop
  | float x => x.isNaN = false
  | list items => NanFreeItems items
  | set items => NanFreeItems items
  | map entries => NanFreeEntries entries
  | object v => v.NanFree
  | _ => True

def NanFreeItems : List Value → Prop
  | [] => True
  | v :: rest => NanFree v ∧ NanFreeItems rest

def NanFreeEntries : List (String × Value) → Prop
  | [] => True
  | (_, v) :: rest => NanFree v ∧ NanFreeEntries rest

end

theorem properItems_iff (items : List Value) : ProperItems items ↔ ∀ v ∈ items, Proper v := by
  induction items with
  | nil => simp [ProperItems]
  | cons v rest ih => rw [ProperItems, ih, List.forall_mem_cons]

theorem properEntries_iff (entries : List (String × Value)) :
    ProperEntries entries ↔ ∀ e ∈ entries, Proper e.2 := by
  induction entries with
  | nil => simp [ProperEntries]
  | cons e rest ih => rw [ProperEntries, ih, List.forall_mem_cons]

theorem nanFreeItems_iff (items : List Value) : NanFreeItems items ↔ ∀ v ∈ items, NanFree v := by
  induction items with
  | nil => simp [NanFreeItems]
  | cons v rest ih => rw [NanFreeItems, ih, List.forall_mem_cons]

theorem nanFreeEntries_iff (entries : List (String × Value)) :
    NanFreeEntries entries ↔ ∀ e ∈ entries, NanFree e.2 := by
  induction entries with
  | nil => simp [NanFreeEntries]
  | cons e rest ih => rw [NanFreeEntries, ih, List.forall_mem_cons]

/-- What holds of a value if it holds of all that is in it holds of every value. -/
theorem parts_induction {motive : Value → Prop} (null : motive null) (bool : ∀ b, motive (bool b))
    (int : ∀ n, motive (int n)) (float : ∀ x, motive (float x)) (char : ∀ c, motive (char c))
    (str : ∀ s, motive (str s)) (list : ∀ items, (∀ v ∈ items, motive v) → motive (list items))
    (set : ∀ items, (∀ v ∈ items, motive v) → motive (set items))
    (map : ∀ entries, (∀ e ∈ entries, motive e.2) → motive (map entries))
    (object : ∀ v, motive (object v)) (console : ∀ c, motive (console c))
    (ambient : ∀ a, motive (ambient a)) (v : Value) : motive v :=
  @Value.rec motive (fun items => ∀ v ∈ items, motive v) (fun entries => ∀ e ∈ entries, motive e.2)
    (fun e => motive e.2) null bool int float char str list set map object console ambient
    (fun _ h => (List.not_mem_nil h).elim) (fun _ _ hv hrest => List.forall_mem_cons.2 ⟨hv, hrest⟩)
    (fun _ h => (List.not_mem_nil h).elim) (fun _ _ hv hrest => List.forall_mem_cons.2 ⟨hv, hrest⟩)
    (fun _ _ hv => hv) v

/-! ## Equality, rule by rule -/

/-- Equality of values.  Two maps are equal if each key has equal values in both or none in
either. -/
inductive Equal : Value → Value → Prop
  | null : Equal .null .null
  | bool (b : Bool) : Equal (.bool b) (.bool b)
  | int (n : Int64) : Equal (.int n) (.int n)
  | float {x y : Float} (h : SameNumber x y) : Equal (.float x) (.float y)
  | char (c : Char) : Equal (.char c) (.char c)
  | str (s : String) : Equal (.str s) (.str s)
  | list {as bs : List Value} (h : List.Forall₂ Equal as bs) : Equal (.list as) (.list bs)
  | set {as bs : List Value} (h : List.Forall₂ Equal as bs) : Equal (.set as) (.set bs)
  | map {as bs : List (String × Value)}
      (h : ∀ k, Option.Rel Equal (Assoc.get? k as) (Assoc.get? k bs)) : Equal (.map as) (.map bs)
  | object {a b : Json} (h : Json.Same a b) : Equal (.object a) (.object b)
  | console (c : Console) : Equal (.console c) (.console c)
  | ambient {a b : Ambient} (h : a.identity = b.identity) : Equal (.ambient a) (.ambient b)

/-- Equality of maps, whatever their order. -/
def EqualMaps (as bs : List (String × Value)) : Prop :=
  ∀ k, Option.Rel Equal (Assoc.get? k as) (Assoc.get? k bs)

/-! What a value is equal to, by its kind. -/

section

variable (w : Value)

@[simp] theorem equal_null_iff : Equal .null w ↔ w = .null :=
  ⟨fun h => by cases h; rfl, fun h => h ▸ .null⟩

@[simp] theorem equal_bool_iff (b : Bool) : Equal (.bool b) w ↔ w = .bool b :=
  ⟨fun h => by cases h; rfl, fun h => h ▸ .bool b⟩

@[simp] theorem equal_int_iff (n : Int64) : Equal (.int n) w ↔ w = .int n :=
  ⟨fun h => by cases h; rfl, fun h => h ▸ .int n⟩

@[simp] theorem equal_char_iff (c : Char) : Equal (.char c) w ↔ w = .char c :=
  ⟨fun h => by cases h; rfl, fun h => h ▸ .char c⟩

@[simp] theorem equal_str_iff (s : String) : Equal (.str s) w ↔ w = .str s :=
  ⟨fun h => by cases h; rfl, fun h => h ▸ .str s⟩

@[simp] theorem equal_console_iff (c : Console) : Equal (.console c) w ↔ w = .console c :=
  ⟨fun h => by cases h; rfl, fun h => h ▸ .console c⟩

@[simp] theorem equal_float_iff (x : Float) :
    Equal (.float x) w ↔ ∃ y, w = .float y ∧ SameNumber x y :=
  ⟨fun h => by cases h; exact ⟨_, rfl, ‹_›⟩, by rintro ⟨_, rfl, h⟩; exact .float h⟩

@[simp] theorem equal_list_iff (as : List Value) :
    Equal (.list as) w ↔ ∃ bs, w = .list bs ∧ List.Forall₂ Equal as bs :=
  ⟨fun h => by cases h; exact ⟨_, rfl, ‹_›⟩, by rintro ⟨_, rfl, h⟩; exact .list h⟩

@[simp] theorem equal_set_iff (as : List Value) :
    Equal (.set as) w ↔ ∃ bs, w = .set bs ∧ List.Forall₂ Equal as bs :=
  ⟨fun h => by cases h; exact ⟨_, rfl, ‹_›⟩, by rintro ⟨_, rfl, h⟩; exact .set h⟩

@[simp] theorem equal_map_iff (as : List (String × Value)) :
    Equal (.map as) w ↔ ∃ bs, w = .map bs ∧ EqualMaps as bs :=
  ⟨fun h => by cases h; exact ⟨_, rfl, ‹_›⟩, by rintro ⟨_, rfl, h⟩; exact .map h⟩

@[simp] theorem equal_object_iff (a : Json) :
    Equal (.object a) w ↔ ∃ b, w = .object b ∧ Json.Same a b :=
  ⟨fun h => by cases h; exact ⟨_, rfl, ‹_›⟩, by rintro ⟨_, rfl, h⟩; exact .object h⟩

@[simp] theorem equal_ambient_iff (a : Ambient) :
    Equal (.ambient a) w ↔ ∃ b, w = .ambient b ∧ a.identity = b.identity :=
  ⟨fun h => by cases h; exact ⟨_, rfl, ‹_›⟩, by rintro ⟨_, rfl, h⟩; exact .ambient h⟩

end

/-! Equality is symmetric and transitive. -/

theorem linked_equalMaps {as : List (String × Value)} (h : ∀ e ∈ as, Linked Equal e.2) :
    Linked EqualMaps as := by
  intro bs hbs
  have hkey (k : String) : Linked (Option.Rel Equal) (Assoc.get? k as) :=
    linked_optionRel fun a ha => h (k, a) (Assoc.mem_of_get? ha)
  exact ⟨fun k => (hkey k _ (hbs k)).1, fun cs hcs k => (hkey k _ (hbs k)).2 _ (hcs k)⟩

/-- **Equality of values is symmetric and transitive.** -/
theorem linked_equal (v : Value) : Linked Equal v := by
  induction v using parts_induction with
  | null => exact linked_of_eq fun w => (equal_null_iff w).1
  | bool b => exact linked_of_eq fun w => (equal_bool_iff w b).1
  | int n => exact linked_of_eq fun w => (equal_int_iff w n).1
  | char c => exact linked_of_eq fun w => (equal_char_iff w c).1
  | str s => exact linked_of_eq fun w => (equal_str_iff w s).1
  | console c => exact linked_of_eq fun w => (equal_console_iff w c).1
  | float x => exact linked_of_image (fun x w => equal_float_iff w x) (linked_sameNumber x)
  | list items ih => exact linked_of_image (fun as w => equal_list_iff w as) (linked_forall₂ ih)
  | set items ih => exact linked_of_image (fun as w => equal_set_iff w as) (linked_forall₂ ih)
  | map entries ih => exact linked_of_image (fun as w => equal_map_iff w as) (linked_equalMaps ih)
  | object a => exact linked_of_image (fun a w => equal_object_iff w a) (Json.linked_same a)
  | ambient a =>
    have hidentity : Linked (fun a b : Ambient => a.identity = b.identity) a :=
      fun b hb => ⟨hb.symm, fun c hc => hb.trans hc⟩
    exact linked_of_image (fun a w => equal_ambient_iff w a) hidentity

theorem Equal.symm {v w : Value} (h : Equal v w) : Equal w v := (linked_equal v w h).1

theorem Equal.trans {u v w : Value} (h : Equal u v) (h' : Equal v w) : Equal u w :=
  (linked_equal u v h).2 w h'

theorem equalMaps_self_iff {entries : List (String × Value)} (hkeys : (Assoc.keys entries).Nodup) :
    EqualMaps entries entries ↔ ∀ e ∈ entries, Equal e.2 e.2 := by
  constructor
  · intro h e he
    have hself := h e.1
    rw [Assoc.get?_of_mem hkeys he] at hself
    cases hself with
    | some hvalue => exact hvalue
  · intro h k
    cases hk : Assoc.get? k entries with
    | none => exact .none
    | some v => exact .some (h (k, v) (Assoc.mem_of_get? hk))

/-- **A value is equal to itself exactly if there is no NaN in it.** -/
theorem equal_self_iff {v : Value} (h : v.Proper) : Equal v v ↔ v.NanFree := by
  induction v using parts_induction with
  | float x => simp [NanFree, sameNumber_self_iff]
  | list items ih =>
    rw [Proper, properItems_iff] at h
    simp only [equal_list_iff, list.injEq, exists_eq_left', List.forall₂_same, NanFree,
      nanFreeItems_iff]
    exact forall₂_congr fun v hv => ih v hv (h v hv)
  | set items ih =>
    rw [Proper, properItems_iff] at h
    simp only [equal_set_iff, set.injEq, exists_eq_left', List.forall₂_same, NanFree,
      nanFreeItems_iff]
    exact forall₂_congr fun v hv => ih v hv (h v hv)
  | map entries ih =>
    rw [Proper, properEntries_iff] at h
    simp only [equal_map_iff, map.injEq, exists_eq_left', equalMaps_self_iff h.1, NanFree,
      nanFreeEntries_iff]
    exact forall₂_congr fun e he => ih e he (h.2 e he)
  | object a => simp [NanFree, Json.same_self_iff]
  | _ => simp [NanFree]

/-! ## The test for equality -/

theorem beqItems_iff_equal {as : List Value}
    (h : ∀ a ∈ as, ∀ b, b.Proper → (beq a b = true ↔ Equal a b)) {bs : List Value}
    (hbs : ∀ b ∈ bs, b.Proper) : beqItems as bs = true ↔ List.Forall₂ Equal as bs := by
  induction as generalizing bs with
  | nil => cases bs <;> simp [beqItems]
  | cons a as ih =>
    cases bs with
    | nil => simp [beqItems]
    | cons b bs =>
      obtain ⟨ha, has⟩ := List.forall_mem_cons.1 h
      obtain ⟨hb, hrest⟩ := List.forall_mem_cons.1 hbs
      rw [beqItems, Bool.and_eq_true, List.forall₂_cons, ha b hb, ih has hrest]

/-- Equal maps have the same keys. -/
theorem EqualMaps.mem_keys_iff {as bs : List (String × Value)} (h : EqualMaps as bs) (k : String) :
    k ∈ Assoc.keys as ↔ k ∈ Assoc.keys bs := by
  rw [Assoc.mem_keys_iff, Assoc.mem_keys_iff]
  exact isSome_iff_of_optionRel (h k)

/-- Of two maps of one size it is enough to look through the first: no key of the other is left. -/
theorem mem_keys_of_beqEntries {as bs : List (String × Value)} (has : (Assoc.keys as).Nodup)
    (hlen : as.length = bs.length)
    (h : ∀ e ∈ as, ∃ b, Assoc.get? e.1 bs = some b ∧ beq e.2 b = true) {k : String}
    (hk : k ∈ Assoc.keys bs) : k ∈ Assoc.keys as := by
  have hsub : Assoc.keys as ⊆ Assoc.keys bs := by
    intro j hj
    obtain ⟨e, he, rfl⟩ := List.mem_map.1 hj
    obtain ⟨b, hb, -⟩ := h e he
    exact Assoc.mem_keys_iff.2 (by rw [hb]; rfl)
  exact ((has.subperm hsub).perm_of_length_le (by simp [Assoc.keys, hlen])).mem_iff.2 hk

theorem beqMaps_iff_equal {as bs : List (String × Value)}
    (h : ∀ e ∈ as, ∀ b, b.Proper → (beq e.2 b = true ↔ Equal e.2 b))
    (has : (Assoc.keys as).Nodup) (hbs : (Assoc.keys bs).Nodup) (hproper : ∀ e ∈ bs, e.2.Proper) :
    (as.length = bs.length ∧ beqEntries as bs = true) ↔ EqualMaps as bs := by
  rw [beqEntries_eq_true_iff]
  constructor
  · rintro ⟨hlen, hall⟩ k
    cases ha : Assoc.get? k as with
    | some a =>
      have hmem := Assoc.mem_of_get? ha
      obtain ⟨b, hb, hbeq⟩ := hall (k, a) hmem
      rw [hb]
      exact .some ((h (k, a) hmem b (hproper (k, b) (Assoc.mem_of_get? hb))).1 hbeq)
    | none =>
      have hnone : Assoc.get? k bs = none := by
        rw [← Option.not_isSome_iff_eq_none, ← Assoc.mem_keys_iff]
        intro hk
        have hka := Assoc.mem_keys_iff.1 (mem_keys_of_beqEntries has hlen hall hk)
        rw [ha] at hka
        cases hka
      rw [hnone]
      exact .none
  · intro hequal
    have hperm : (Assoc.keys as).Perm (Assoc.keys bs) :=
      (List.perm_ext_iff_of_nodup has hbs).2 hequal.mem_keys_iff
    refine ⟨by simpa [Assoc.keys] using hperm.length_eq, fun e he => ?_⟩
    have hkey := hequal e.1
    rw [Assoc.get?_of_mem has he, optionRel_some_iff] at hkey
    obtain ⟨b, hb, hab⟩ := hkey
    exact ⟨b, hb, (h e he b (hproper (e.1, b) (Assoc.mem_of_get? hb))).2 hab⟩

/-- **The test for equality is right for proper values.** -/
theorem beq_iff_equal {v w : Value} (hv : v.Proper) (hw : w.Proper) :
    beq v w = true ↔ Equal v w := by
  induction v using parts_induction generalizing w with
  | float x => cases w <;> simp [beq, float_beq_iff]
  | list as ih =>
    rw [Proper, properItems_iff] at hv
    cases w with
    | list bs =>
      rw [Proper, properItems_iff] at hw
      simp only [equal_list_iff, list.injEq, exists_eq_left', beq]
      exact beqItems_iff_equal (fun a ha b hb => ih a ha (hv a ha) hb) hw
    | _ => simp [beq]
  | set as ih =>
    rw [Proper, properItems_iff] at hv
    cases w with
    | set bs =>
      rw [Proper, properItems_iff] at hw
      simp only [equal_set_iff, set.injEq, exists_eq_left', beq]
      exact beqItems_iff_equal (fun a ha b hb => ih a ha (hv a ha) hb) hw
    | _ => simp [beq]
  | map as ih =>
    rw [Proper, properEntries_iff] at hv
    cases w with
    | map bs =>
      rw [Proper, properEntries_iff] at hw
      simp only [equal_map_iff, map.injEq, exists_eq_left', beq, Bool.and_eq_true,
        decide_eq_true_eq]
      exact beqMaps_iff_equal (fun e he b hb => ih e he (hv.2 e he) hb) hv.1 hw.1 hw.2
    | _ => simp [beq]
  | object a => cases w <;> simp [beq, Json.Same]
  | _ => cases w <;> simp [beq, eq_comm]

end Value

end CommandShell
