import CommandShell.Proofs.Value.Equality
/-!
# Values of a type

`Inhabits v t` says what a value of the type `t` is.  An array is held as a list, no value of a
set is equal to another, a map has each key once.  Nothing inhabits an ambient or a custom type:
their values come from outside.

    values of one type are equal in both orders or in none         (Inhabits.beq_comm)
    distinct values of a type make a set of the type               (inhabits_set_distinct)
-/

namespace CommandShell

open Value

inductive Inhabits : Value → ValueType → Prop
  | bool (b : Bool) : Inhabits (.bool b) .bool
  | int (n : Int64) : Inhabits (.int n) .int
  | float (x : Float) : Inhabits (.float x) .float
  | char (c : Char) : Inhabits (.char c) .char
  | str (s : String) : Inhabits (.str s) .str
  | list {items : List Value} {e : ValueType} (h : ∀ v ∈ items, Inhabits v e) :
      Inhabits (.list items) (.list e)
  | array {items : List Value} {e : ValueType} (h : ∀ v ∈ items, Inhabits v e) :
      Inhabits (.list items) (.array e)
  | set {items : List Value} {e : ValueType} (h : ∀ v ∈ items, Inhabits v e)
      (distinct : items.Pairwise fun v w => beq v w = false ∧ beq w v = false) :
      Inhabits (.set items) (.set e)
  | map {entries : List (String × Value)} {e : ValueType} (h : ∀ kv ∈ entries, Inhabits kv.2 e)
      (keys : (Assoc.keys entries).Nodup) : Inhabits (.map entries) (.map e)

/-! ## Equality within a type -/

theorem Inhabits.proper {v : Value} {t : ValueType} (h : Inhabits v t) : v.Proper := by
  induction h with
  | list _ ih => exact (properItems_iff _).2 ih
  | array _ ih => exact (properItems_iff _).2 ih
  | set _ _ ih => exact (properItems_iff _).2 ih
  | map _ hkeys ih => exact ⟨hkeys, (properEntries_iff _).2 ih⟩
  | _ => trivial

theorem Inhabits.beq_comm {t : ValueType} {a b : Value} (ha : Inhabits a t) (hb : Inhabits b t) :
    beq a b = beq b a := by
  rw [Bool.eq_iff_iff, beq_iff_equal ha.proper hb.proper, beq_iff_equal hb.proper ha.proper]
  exact ⟨Equal.symm, Equal.symm⟩

theorem inhabits_set_distinct {items : List Value} {e : ValueType}
    (h : ∀ v ∈ items, Inhabits v e) : Inhabits (.set (distinct items)) (.set e) := by
  refine .set (fun v hv => h v (mem_of_mem_distinct hv)) ?_
  refine (pairwise_distinct items).imp_of_mem fun {v w} hv hw hne => ⟨hne, ?_⟩
  rw [(h w (mem_of_mem_distinct hw)).beq_comm (h v (mem_of_mem_distinct hv))]
  exact hne

end CommandShell
