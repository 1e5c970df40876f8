import CommandShell.Json.Basic
import Mathlib.Data.List.Forall2
/-!
# When two JSON values are equal

Floats are equal if they are the same number; that leaves out NaN, which is equal to nothing, and
makes the two zeros one.  Everything else is equal to itself alone, so that equality of values is
symmetric and transitive, and a value is equal to itself exactly if it holds no NaN.

    Linked R a         among what R relates to a, R is symmetric and transitive
    (x == y) = true ↔ SameNumber x y                             (float_beq_iff)
    equality of values is symmetric and transitive               (linked_same)
    v is equal to itself ↔ v.NanFree                             (same_self_iff)
-/

namespace CommandShell

/-! ## Relations that are symmetric and transitive from a point on -/

/-- What `a` is related to is related to `a`, and `a` to what that is related to. -/
def Linked {α : Type} (R : α → α → Prop) (a : α) : Prop :=
  ∀ b, R a b → R b a ∧ ∀ c, R b c → R a c

theorem linked_of_eq {α : Type} {R : α → α → Prop} {a : α} (h : ∀ b, R a b → b = a) :
    Linked R a := by
  intro b hb
  obtain rfl := h b hb
  exact ⟨hb, fun _ hc => hc⟩

theorem linked_forall₂ {α : Type} {R : α → α → Prop} {as : List α} (h : ∀ a ∈ as, Linked R a) :
    Linked (List.Forall₂ R) as := by
  intro bs hbs
  induction hbs with
  | nil => exact ⟨.nil, fun cs hcs => hcs⟩
  | cons hab _ ih =>
    obtain ⟨hsymm, htrans⟩ := h _ List.mem_cons_self _ hab
    obtain ⟨ihsymm, ihtrans⟩ := ih fun a ha => h a (List.mem_cons_of_mem _ ha)
    refine ⟨.cons hsymm ihsymm, fun cs hcs => ?_⟩
    cases hcs with
    | cons hbc hrest => exact .cons (htrans _ hbc) (ihtrans _ hrest)

/-- A relation that is `S` on what `f` makes, and relates that to nothing else, is linked where `S`
is. -/
theorem linked_of_image {α β : Type} {R : α → α → Prop} {S : β → β → Prop} {f : β → α}
    (h : ∀ x a, R (f x) a ↔ ∃ y, a = f y ∧ S x y) {x : β} (hx : Linked S x) : Linked R (f x) := by
  intro a ha
  obtain ⟨y, rfl, hxy⟩ := (h x a).1 ha
  obtain ⟨hsymm, htrans⟩ := hx y hxy
  refine ⟨(h y (f x)).2 ⟨x, rfl, hsymm⟩, fun b hb => ?_⟩
  obtain ⟨z, rfl, hyz⟩ := (h y b).1 hb
  exact (h x (f z)).2 ⟨z, rfl, htrans z hyz⟩

/-! ## Floats -/

/-- Two floats are one number: neither is NaN, and they are alike or both zero. -/
def SameNumber (x y : Float) : Prop :=
  (x.toModel.unpack = y.toModel.unpack ∧ x.isNaN = false) ∨
    ∃ s t, x.toModel.unpack = .zero s ∧ y.toModel.unpack = .zero t

theorem isNaN_eq_false_iff (x : Float) :
    x.isNaN = false ↔ x.toModel.unpack ≠ .notANumber := by
  show x.toModel.unpack.isNaN = false ↔ _
  cases x.toModel.unpack with
  | notANumber => exact iff_of_false (by decide) fun h => h rfl
  | _ => exact iff_of_true rfl fun h => by cases h

/-- Among numbers of one sign the exponents are compared first. -/
theorem compareParts_eq_iff (e f : Int) (m n : Nat) :
    (compare e f).then (compare m n) = .eq ↔ m = n ∧ e = f := by
  rw [Ordering.then_eq_eq, Std.LawfulEqCmp.compare_eq_iff_eq, Std.LawfulEqCmp.compare_eq_iff_eq,
    and_comm]

open Float.Model in
theorem compare_eq_iff (a b : UnpackedFloat) :
    a.compare b = some .eq ↔
      (a = b ∧ a ≠ .notANumber) ∨ ∃ s t, a = .zero s ∧ b = .zero t := by
  have hfinite {s : UnpackedFloat.Sign} {m n : Nat} {e f : Int} {hm : 0 < m} {hn : 0 < n}
      (h : m = n ∧ e = f) : UnpackedFloat.finite s m e hm = .finite s n f hn := by
    obtain ⟨rfl, rfl⟩ := h
    rfl
  constructor
  · intro h
    cases a with
    | notANumber => cases h
    | infinity s =>
      refine Or.inl ⟨?_, fun hnone => by cases hnone⟩
      cases b with
      | infinity t =>
        cases s <;> cases t
        case positive.positive | negative.negative => rfl
        all_goals cases h
      | _ => cases s <;> cases h
    | zero s =>
      cases b with
      | notANumber => cases h
      | infinity t => cases t <;> cases h
      | zero t => exact Or.inr ⟨s, t, rfl, rfl⟩
      | finite t => cases t <;> cases h
    | finite s m e =>
      refine Or.inl ⟨?_, fun hnone => by cases hnone⟩
      cases b with
      | notANumber => cases s <;> cases h
      | infinity t => cases s <;> cases t <;> cases h
      | zero t => cases s <;> cases h
      | finite t n f =>
        cases s <;> cases t
        case positive.positive =>
          exact hfinite ((compareParts_eq_iff e f m n).1 (Option.some.inj h))
        case negative.negative =>
          have hparts := Ordering.swap_eq_eq.1 (Option.some.inj h)
          exact hfinite ((compareParts_eq_iff e f m n).1 hparts)
        all_goals cases h
  · rintro (⟨rfl, hnumber⟩ | ⟨s, t, rfl, rfl⟩)
    · cases a with
      | notANumber => exact absurd rfl hnumber
      | infinity s => cases s <;> rfl
      | zero s => rfl
      | finite s m e =>
        have hparts := (compareParts_eq_iff e e m m).2 ⟨rfl, rfl⟩
        cases s with
        | positive => exact congrArg some hparts
        | negative => exact congrArg some (Ordering.swap_eq_eq.2 hparts)
    · rfl

theorem float_beq_iff (x y : Float) : (x == y) = true ↔ SameNumber x y := by
  rw [SameNumber, isNaN_eq_false_iff]
  have hcompare : (x == y) =
      (x.toModel.unpack.compare y.toModel.unpack == some Ordering.eq) := rfl
  rw [hcompare, beq_iff_eq]
  exact compare_eq_iff x.toModel.unpack y.toModel.unpack

theorem linked_sameNumber (x : Float) : Linked SameNumber x := by
  rintro y (⟨hxy, hx⟩ | ⟨s, t, hx, hy⟩)
  · refine ⟨Or.inl ⟨hxy.symm, ?_⟩, ?_⟩
    · rw [isNaN_eq_false_iff, ← hxy, ← isNaN_eq_false_iff]
      exact hx
    · rintro z (⟨hyz, -⟩ | ⟨t, u, hy, hz⟩)
      · exact Or.inl ⟨hxy.trans hyz, hx⟩
      · exact Or.inr ⟨t, u, hxy.trans hy, hz⟩
  · refine ⟨Or.inr ⟨t, s, hy, hx⟩, ?_⟩
    rintro z (⟨hyz, -⟩ | ⟨-, u, -, hz⟩)
    · exact Or.inr ⟨s, t, hx, hyz ▸ hy⟩
    · exact Or.inr ⟨s, u, hx, hz⟩

theorem sameNumber_self_iff (x : Float) : SameNumber x x ↔ x.isNaN = false := by
  constructor
  · rintro (⟨-, h⟩ | ⟨s, -, h, -⟩)
    · exact h
    · rw [isNaN_eq_false_iff, h]
      simp
  · exact fun h => Or.inl ⟨rfl, h⟩

/-! ## Values -/

namespace Json

mutual

/-- No float of the value is NaN. -/
def NanFree : Json → Prop
  | float x => x.isNaN = false
  | array items => NanFreeItems items
  | fields named => NanFreeFields named
  | _ => True

def NanFreeItems : List Json → Prop
  | [] => True
  | v :: rest => NanFree v ∧ NanFreeItems rest

def NanFreeFields : List (String × Json) → Prop
  | [] => True
  | (_, v) :: rest => NanFree v ∧ NanFreeFields rest

end

/-- What holds of a value if it holds of all that is in it holds of every value. -/
theorem parts_induction {motive : Json → Prop} (null : motive null) (bool : ∀ b, motive (bool b))
    (integer : ∀ n, motive (integer n)) (float : ∀ x, motive (float x))
    (string : ∀ s, motive (string s))
    (array : ∀ items, (∀ v ∈ items, motive v) → motive (array items))
    (fields : ∀ named, (∀ e ∈ named, motive e.2) → motive (fields named)) (v : Json) : motive v :=
  @Json.rec motive (fun items => ∀ v ∈ items, motive v) (fun named => ∀ e ∈ named, motive e.2)
    (fun e => motive e.2) null bool integer float string array fields
    (fun _ h => (List.not_mem_nil h).elim) (fun _ _ hv hrest => List.forall_mem_cons.2 ⟨hv, hrest⟩)
    (fun _ h => (List.not_mem_nil h).elim) (fun _ _ hv hrest => List.forall_mem_cons.2 ⟨hv, hrest⟩)
    (fun _ _ hv => hv) v

theorem nanFreeItems_iff (items : List Json) : NanFreeItems items ↔ ∀ v ∈ items, NanFree v := by
  induction items with
  | nil => simp [NanFreeItems]
  | cons v rest ih => rw [NanFreeItems, ih, List.forall_mem_cons]

theorem nanFreeFields_iff (named : List (String × Json)) :
    NanFreeFields named ↔ ∀ e ∈ named, NanFree e.2 := by
  induction named with
  | nil => simp [NanFreeFields]
  | cons e rest ih => rw [NanFreeFields, ih, List.forall_mem_cons]

/-- Equality as a relation. -/
def Same (v w : Json) : Prop := beq v w = true

/-- Equality of fields: the same name, and equal values. -/
def SameField (e f : String × Json) : Prop := e.1 = f.1 ∧ Same e.2 f.2

theorem beqItems_iff (as bs : List Json) : beqItems as bs = true ↔ List.Forall₂ Same as bs := by
  induction as generalizing bs with
  | nil => cases bs <;> simp [beqItems]
  | cons a as ih =>
    cases bs with
    | nil => simp [beqItems]
    | cons b bs => rw [beqItems, Bool.and_eq_true, ih, List.forall₂_cons, Same]

theorem beqFields_iff (as bs : List (String × Json)) :
    beqFields as bs = true ↔ List.Forall₂ SameField as bs := by
  induction as generalizing bs with
  | nil => cases bs <;> simp [beqFields]
  | cons e as ih =>
    cases bs with
    | nil => simp [beqFields]
    | cons f bs =>
      rw [beqFields, Bool.and_eq_true, Bool.and_eq_true, ih, List.forall₂_cons, SameField,
        decide_eq_true_eq]
      rfl

theorem linked_sameField {e : String × Json} (h : Linked Same e.2) : Linked SameField e := by
  rintro f ⟨hname, hvalue⟩
  obtain ⟨hsymm, htrans⟩ := h _ hvalue
  exact ⟨⟨hname.symm, hsymm⟩, fun g hg => ⟨hname.trans hg.1, htrans _ hg.2⟩⟩

theorem same_float_iff (x : Float) (w : Json) :
    Same (float x) w ↔ ∃ y, w = float y ∧ SameNumber x y := by
  cases w <;> simp [Same, beq, ← float_beq_iff]

theorem same_array_iff (as : List Json) (w : Json) :
    Same (array as) w ↔ ∃ bs, w = array bs ∧ List.Forall₂ Same as bs := by
  cases w <;> simp [Same, beq, beqItems_iff]

theorem same_fields_iff (as : List (String × Json)) (w : Json) :
    Same (fields as) w ↔ ∃ bs, w = fields bs ∧ List.Forall₂ SameField as bs := by
  cases w <;> simp [Same, beq, beqFields_iff]

/-- **Equality of JSON values is symmetric and transitive.** -/
theorem linked_same (v : Json) : Linked Same v := by
  induction v using parts_induction with
  | null => exact linked_of_eq fun w hw => by cases w <;> simp_all [Same, beq]
  | bool b => exact linked_of_eq fun w hw => by cases w <;> simp_all [Same, beq]
  | integer n => exact linked_of_eq fun w hw => by cases w <;> simp_all [Same, beq]
  | string s => exact linked_of_eq fun w hw => by cases w <;> simp_all [Same, beq]
  | float x => exact linked_of_image same_float_iff (linked_sameNumber x)
  | array items ih => exact linked_of_image same_array_iff (linked_forall₂ ih)
  | fields named ih =>
    exact linked_of_image same_fields_iff
      (linked_forall₂ fun e he => linked_sameField (ih e he))

/-- **A JSON value is equal to itself exactly if it holds no NaN.** -/
theorem same_self_iff (v : Json) : Same v v ↔ v.NanFree := by
  induction v using parts_induction with
  | null => exact iff_of_true rfl trivial
  | bool b => exact iff_of_true (by simp [Same, beq]) trivial
  | integer n => exact iff_of_true (by simp [Same, beq]) trivial
  | string s => exact iff_of_true (by simp [Same, beq]) trivial
  | float x => exact (float_beq_iff x x).trans (sameNumber_self_iff x)
  | array items ih =>
    show beqItems items items = true ↔ NanFreeItems items
    rw [beqItems_iff, List.forall₂_same, nanFreeItems_iff]
    exact forall₂_congr ih
  | fields named ih =>
    show beqFields named named = true ↔ NanFreeFields named
    rw [beqFields_iff, List.forall₂_same, nanFreeFields_iff]
    exact forall₂_congr fun e he => (and_iff_right rfl).trans (ih e he)

end Json

end CommandShell
