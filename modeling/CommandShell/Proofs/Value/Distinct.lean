import CommandShell.Proofs.Value.Equality
import Mathlib.Data.List.Induction
/-!
# Values without later duplicates

`distinct` compares each value with those that it has kept so far.  Since equality is transitive,
that is as good as comparing it with all values before it: what is kept are the values that no
earlier one is equal to, in their order.

    IsFirst vs i        at the position i stands a value that equals none before it
    the values kept are those at the first positions             (exists_positions)
    no two of them are equal                                     (pairwise_not_equal_distinct)
    a value has its equal among them ↔ it holds no NaN           (exists_equal_distinct_iff)
-/

namespace CommandShell.Value

/-! ## One value more -/

theorem isAmong_iff (v : Value) (items : List Value) :
    v.isAmong items = true ↔ ∃ w ∈ items, beq w v = true := by
  rw [isAmong, List.any_eq_true]

theorem distinctFrom_append (kept items more : List Value) :
    distinctFrom kept (items ++ more) =
      distinctFrom kept items ++ distinctFrom (kept ++ distinctFrom kept items) more := by
  induction items generalizing kept with
  | nil => simp [distinctFrom]
  | cons v items ih =>
    rw [List.cons_append, distinctFrom, distinctFrom]
    split
    · exact ih kept
    · rw [ih (kept ++ [v])]
      simp

theorem distinct_concat (items : List Value) (v : Value) :
    distinct (items ++ [v]) =
      distinct items ++ if v.isAmong (distinct items) then [] else [v] := by
  rw [distinct, distinctFrom_append]
  rfl

/-- What is not kept is equal to something that is. -/
theorem mem_or_isAmong_distinct {items : List Value} {v : Value} (h : v ∈ items) :
    v ∈ distinct items ∨ v.isAmong (distinct items) = true := by
  induction items using List.reverseRecOn with
  | nil => cases h
  | append_singleton items w ih =>
    rw [distinct_concat]
    rcases List.mem_append.1 h with h | h
    · rcases ih h with hmem | hamong
      · exact Or.inl (List.mem_append_left _ hmem)
      · obtain ⟨u, hu, huv⟩ := (isAmong_iff v _).1 hamong
        exact Or.inr ((isAmong_iff v _).2 ⟨u, List.mem_append_left _ hu, huv⟩)
    · obtain rfl := List.mem_singleton.1 h
      by_cases hv : v.isAmong (distinct items) = true
      · obtain ⟨u, hu, huv⟩ := (isAmong_iff v _).1 hv
        exact Or.inr ((isAmong_iff v _).2 ⟨u, List.mem_append_left _ hu, huv⟩)
      · rw [if_neg hv]
        exact Or.inl (List.mem_append_right _ (List.mem_singleton_self v))

theorem distinct_sublist (items : List Value) : (distinct items).Sublist items := by
  induction items using List.reverseRecOn with
  | nil => exact .slnil
  | append_singleton items v ih =>
    rw [distinct_concat]
    refine ih.append ?_
    split
    · exact List.nil_sublist _
    · exact List.Sublist.refl _

/-! ## Equality among proper values -/

/-- Having its equal among the values kept is having it among all. -/
theorem isAmong_distinct_iff {items : List Value} {v : Value} (h : ∀ w ∈ items, w.Proper)
    (hv : v.Proper) : v.isAmong (distinct items) = true ↔ ∃ w ∈ items, Equal w v := by
  rw [isAmong_iff]
  constructor
  · rintro ⟨w, hw, hbeq⟩
    have hmem := mem_of_mem_distinct hw
    exact ⟨w, hmem, (beq_iff_equal (h w hmem) hv).1 hbeq⟩
  · rintro ⟨w, hw, hequal⟩
    rcases mem_or_isAmong_distinct hw with hmem | hamong
    · exact ⟨w, hmem, (beq_iff_equal (h w hw) hv).2 hequal⟩
    · -- an equal of `w` was kept instead, and that is equal to `v`
      obtain ⟨u, hu, huw⟩ := (isAmong_iff w _).1 hamong
      have hproper := h u (mem_of_mem_distinct hu)
      have huv := ((beq_iff_equal hproper (h w hw)).1 huw).trans hequal
      exact ⟨u, hu, (beq_iff_equal hproper hv).2 huv⟩

theorem pairwise_not_equal_distinct {items : List Value} (h : ∀ v ∈ items, v.Proper) :
    (distinct items).Pairwise fun v w => ¬ Equal v w ∧ ¬ Equal w v := by
  refine (pairwise_distinct items).imp_of_mem fun {v w} hv hw hne => ?_
  have hvw : ¬ Equal v w := by
    rw [← beq_iff_equal (h v (mem_of_mem_distinct hv)) (h w (mem_of_mem_distinct hw)), hne]
    exact Bool.false_ne_true
  exact ⟨hvw, fun hwv => hvw hwv.symm⟩

/-- A value has its equal among those that are kept, unless there is a NaN in it. -/
theorem exists_equal_distinct_iff {items : List Value} (h : ∀ v ∈ items, v.Proper) {v : Value}
    (hv : v ∈ items) : (∃ w ∈ distinct items, Equal w v) ↔ v.NanFree := by
  rw [← equal_self_iff (h v hv)]
  constructor
  · rintro ⟨w, -, hwv⟩
    exact hwv.symm.trans hwv
  · intro hself
    obtain ⟨w, hw, hwv⟩ :=
      (isAmong_iff v _).1 ((isAmong_distinct_iff h (h v hv)).2 ⟨v, hv, hself⟩)
    exact ⟨w, hw, (beq_iff_equal (h w (mem_of_mem_distinct hw)) (h v hv)).1 hwv⟩

/-! ## Which values are kept -/

/-- At the position stands a value to which none before it is equal. -/
def IsFirst (vs : List Value) (i : Nat) : Prop :=
  ∃ v, vs[i]? = some v ∧ ∀ w ∈ vs.take i, ¬ Equal w v

theorem IsFirst.lt_length {vs : List Value} {i : Nat} (h : IsFirst vs i) : i < vs.length := by
  obtain ⟨v, hv, -⟩ := h
  exact (List.getElem?_eq_some_iff.1 hv).1

/-- What comes behind a value does not decide whether it is the first. -/
theorem isFirst_append_iff {vs : List Value} {i : Nat} (h : i < vs.length) (ws : List Value) :
    IsFirst (vs ++ ws) i ↔ IsFirst vs i := by
  rw [IsFirst, IsFirst, List.getElem?_append_left h, List.take_append_of_le_length (Nat.le_of_lt h)]

theorem isFirst_length_iff (vs : List Value) (v : Value) :
    IsFirst (vs ++ [v]) vs.length ↔ ¬ ∃ w ∈ vs, Equal w v := by
  simp [IsFirst]

/-- **The values kept are those at the first positions**, in their order. -/
theorem exists_positions {vs : List Value} (h : ∀ v ∈ vs, v.Proper) :
    ∃ positions : List Nat, positions.Pairwise (· < ·) ∧ (∀ i, i ∈ positions ↔ IsFirst vs i) ∧
      (distinct vs).map some = positions.map fun i => vs[i]? := by
  induction vs using List.reverseRecOn with
  | nil => exact ⟨[], .nil, fun i => by simp [IsFirst], rfl⟩
  | append_singleton vs v ih =>
    obtain ⟨positions, hascend, hfirst, hkept⟩ := ih fun w hw => h w (List.mem_append_left _ hw)
    have hbelow : ∀ i ∈ positions, i < vs.length := fun i hi => ((hfirst i).1 hi).lt_length
    have hsame : (distinct vs).map some = positions.map fun i => (vs ++ [v])[i]? := by
      rw [hkept]
      exact List.map_congr_left fun i hi => (List.getElem?_append_left (hbelow i hi)).symm
    have hold (i : Nat) (hi : i ≠ vs.length) : i ∈ positions ↔ IsFirst (vs ++ [v]) i := by
      rw [hfirst]
      by_cases hlt : i < vs.length
      · exact (isFirst_append_iff hlt [v]).symm
      · refine iff_of_false (fun hold => hlt hold.lt_length) fun hnew => ?_
        have := hnew.lt_length
        rw [List.length_append, List.length_singleton] at this
        omega
    have hamong := isAmong_distinct_iff (fun w hw => h w (List.mem_append_left _ hw))
      (h v (List.mem_append_right _ (List.mem_singleton_self v)))
    rw [distinct_concat]
    by_cases hv : ∃ w ∈ vs, Equal w v
    · rw [if_pos (hamong.2 hv), List.append_nil]
      refine ⟨positions, hascend, fun i => ?_, hsame⟩
      by_cases hi : i = vs.length
      · subst hi
        rw [isFirst_length_iff]
        exact iff_of_false (fun hmem => Nat.lt_irrefl _ (hbelow _ hmem)) fun hno => hno hv
      · exact hold i hi
    · rw [if_neg fun hin => hv (hamong.1 hin)]
      refine ⟨positions ++ [vs.length], ?_, fun i => ?_, ?_⟩
      · rw [List.pairwise_append]
        refine ⟨hascend, List.pairwise_singleton _ _, fun i hi j hj => ?_⟩
        rw [List.mem_singleton.1 hj]
        exact hbelow i hi
      · rw [List.mem_append, List.mem_singleton]
        by_cases hi : i = vs.length
        · subst hi
          exact iff_of_true (Or.inr rfl) ((isFirst_length_iff vs v).2 hv)
        · rw [← hold i hi]
          simp [hi]
      · rw [List.map_append, List.map_append, hsame]
        simp

end CommandShell.Value
