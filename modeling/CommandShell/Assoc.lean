/-!
# Finite maps as lists of pairs

A map that shows its order is a list of pairs with distinct keys.  `put` keeps the place of a key
that is already there, `putSorted` keeps the keys ascending.

    get? k (put k v m) = some v                                    (get?_put_self)
    j ≠ k → get? j (put k v m) = get? j m                          (get?_put_of_ne)
    get? k (erase k m) = none                                      (get?_erase_self)
    ofPairs ps = ps ↔ the keys of ps are distinct                  (ofPairs_eq_self_iff)
    get? k (sorted ps) = get? k (the pairs from the last on)       (get?_sorted)
    maps with ascending keys and the same values are the same      (eq_of_get?)
-/

namespace CommandShell.Assoc

variable {κ α : Type} [DecidableEq κ]

/-- The value under a key. -/
def get? (key : κ) : List (κ × α) → Option α
  | [] => none
  | (k, v) :: rest => if k = key then some v else get? key rest

/-- Whether the key has a value. -/
def contains (key : κ) (m : List (κ × α)) : Bool := (get? key m).isSome

/-- Gives the key a value: in place if the key is there, else at the end. -/
def put (key : κ) (value : α) : List (κ × α) → List (κ × α)
  | [] => [(key, value)]
  | (k, v) :: rest => if k = key then (key, value) :: rest else (k, v) :: put key value rest

/-- Removes the key. -/
def erase (key : κ) : List (κ × α) → List (κ × α)
  | [] => []
  | (k, v) :: rest => if k = key then erase key rest else (k, v) :: erase key rest

/-- The keys in order. -/
def keys (m : List (κ × α)) : List κ := m.map Prod.fst

/-- The map with every pair put in turn. -/
def putAll (m pairs : List (κ × α)) : List (κ × α) := pairs.foldl (fun m (k, v) => put k v m) m

/-- The map that the pairs make, put in turn. -/
def ofPairs (pairs : List (κ × α)) : List (κ × α) := putAll [] pairs

/-- Gives the key a value in a map whose keys ascend. -/
def putSorted [LT κ] [DecidableLT κ] (key : κ) (value : α) : List (κ × α) → List (κ × α)
  | [] => [(key, value)]
  | (k, v) :: rest =>
    if k = key then (key, value) :: rest
    else if key < k then (key, value) :: (k, v) :: rest
    else (k, v) :: putSorted key value rest

/-- The map with ascending keys that holds the last value of every key. -/
def sorted [LT κ] [DecidableLT κ] (pairs : List (κ × α)) : List (κ × α) :=
  pairs.foldl (fun m (k, v) => putSorted k v m) []

/-! ## Lemmas -/

@[simp] theorem get?_nil (key : κ) : get? key ([] : List (κ × α)) = none := rfl

@[simp] theorem get?_put_self (key : κ) (value : α) (m : List (κ × α)) :
    get? key (put key value m) = some value := by
  induction m with
  | nil => simp [put, get?]
  | cons p m ih =>
    obtain ⟨k, v⟩ := p
    by_cases h : k = key <;> simp [put, get?, h, ih]

theorem get?_put_of_ne {j key : κ} (h : j ≠ key) (value : α) (m : List (κ × α)) :
    get? j (put key value m) = get? j m := by
  induction m with
  | nil => simp [put, get?, Ne.symm h]
  | cons p m ih =>
    obtain ⟨k, v⟩ := p
    by_cases hk : k = key
    · subst hk; simp [put, get?, Ne.symm h]
    · rw [put, if_neg hk]; simp [get?, ih]

@[simp] theorem get?_erase_self (key : κ) (m : List (κ × α)) : get? key (erase key m) = none := by
  induction m with
  | nil => rfl
  | cons p m ih =>
    obtain ⟨k, v⟩ := p
    by_cases h : k = key <;> simp [erase, get?, h, ih]

theorem get?_erase_of_ne {j key : κ} (h : j ≠ key) (m : List (κ × α)) :
    get? j (erase key m) = get? j m := by
  induction m with
  | nil => rfl
  | cons p m ih =>
    obtain ⟨k, v⟩ := p
    by_cases hk : k = key
    · subst hk; simp [erase, get?, Ne.symm h, ih]
    · rw [erase, if_neg hk]; simp [get?, ih]

theorem mem_of_mem_erase {key : κ} {m : List (κ × α)} {e : κ × α} (h : e ∈ erase key m) :
    e ∈ m := by
  induction m with
  | nil => exact h
  | cons p m ih =>
    rw [erase] at h
    split at h
    · exact List.mem_cons_of_mem _ (ih h)
    · rcases List.mem_cons.1 h with h | h
      · exact h ▸ List.mem_cons_self
      · exact List.mem_cons_of_mem _ (ih h)

theorem mem_keys_iff {key : κ} {m : List (κ × α)} : key ∈ keys m ↔ (get? key m).isSome := by
  induction m with
  | nil => simp [keys]
  | cons p m ih =>
    obtain ⟨k, v⟩ := p
    by_cases h : k = key
    · simp [keys, get?, h]
    · have : key ≠ k := Ne.symm h
      simpa [keys, get?, h, this] using ih

theorem mem_of_get? {key : κ} {value : α} {m : List (κ × α)} (h : get? key m = some value) :
    (key, value) ∈ m := by
  induction m with
  | nil => simp at h
  | cons p m ih =>
    obtain ⟨k, v⟩ := p
    by_cases hk : k = key
    · simp [get?, hk] at h; simp [hk, h]
    · simp [get?, hk] at h; exact List.mem_cons_of_mem _ (ih h)

theorem get?_append (key : κ) (m m' : List (κ × α)) :
    get? key (m ++ m') = (get? key m).or (get? key m') := by
  induction m with
  | nil => rfl
  | cons p m ih =>
    obtain ⟨k, v⟩ := p
    by_cases h : k = key <;> simp [get?, h, ih]

theorem get?_of_mem {key : κ} {value : α} {m : List (κ × α)} (hk : (keys m).Nodup)
    (h : (key, value) ∈ m) : get? key m = some value := by
  induction m with
  | nil => simp at h
  | cons p m ih =>
    obtain ⟨k, v⟩ := p
    unfold keys at ih hk
    rw [List.map_cons, List.nodup_cons] at hk
    rcases List.mem_cons.1 h with h | h
    · cases h
      rw [get?, if_pos rfl]
    · have hne : k ≠ key := by
        rintro rfl
        exact hk.1 (List.mem_map.2 ⟨_, h, rfl⟩)
      rw [get?, if_neg hne, ih hk.2 h]

/-- A map with distinct keys has the same values in any order. -/
theorem get?_perm {m m' : List (κ × α)} (h : m.Perm m') (hk : (keys m').Nodup) (key : κ) :
    get? key m = get? key m' := by
  have hk' : (keys m).Nodup := (h.map Prod.fst).nodup_iff.2 hk
  apply Option.ext
  intro value
  exact ⟨fun hv => get?_of_mem hk (h.subset (mem_of_get? hv)),
    fun hv => get?_of_mem hk' (h.symm.subset (mem_of_get? hv))⟩

theorem mem_put {key : κ} {value : α} {m : List (κ × α)} {e : κ × α} (h : e ∈ put key value m) :
    e = (key, value) ∨ e ∈ m := by
  induction m with
  | nil => simpa [put] using h
  | cons p m ih =>
    rw [put] at h
    split at h
    · rcases List.mem_cons.1 h with h | h
      · exact Or.inl h
      · exact Or.inr (List.mem_cons_of_mem _ h)
    · rcases List.mem_cons.1 h with h | h
      · exact Or.inr (h ▸ List.mem_cons_self)
      · exact (ih h).imp id (List.mem_cons_of_mem _)

theorem keys_put (key : κ) (value : α) (m : List (κ × α)) :
    keys (put key value m) = if key ∈ keys m then keys m else keys m ++ [key] := by
  induction m with
  | nil => rfl
  | cons p m ih =>
    obtain ⟨k, v⟩ := p
    by_cases hk : k = key
    · simp [put, keys, hk]
    · have hk' : key ≠ k := Ne.symm hk
      unfold keys at ih ⊢
      rw [put, if_neg hk, List.map_cons, ih]
      simp only [List.map_cons, List.mem_cons, hk', false_or]
      split <;> rfl

theorem put_of_not_mem {key : κ} {m : List (κ × α)} (h : key ∉ keys m) (value : α) :
    put key value m = m ++ [(key, value)] := by
  induction m with
  | nil => rfl
  | cons p m ih =>
    obtain ⟨k, v⟩ := p
    simp only [keys, List.map_cons, List.mem_cons, not_or] at h
    rw [put, if_neg (Ne.symm h.1), ih h.2]
    rfl

theorem putAll_cons (m : List (κ × α)) (p : κ × α) (pairs : List (κ × α)) :
    putAll m (p :: pairs) = putAll (put p.1 p.2 m) pairs := rfl

theorem nodup_keys_putAll (pairs : List (κ × α)) {m : List (κ × α)} (h : (keys m).Nodup) :
    (keys (putAll m pairs)).Nodup := by
  induction pairs generalizing m with
  | nil => exact h
  | cons p pairs ih =>
    apply ih
    rw [keys_put]
    split
    · exact h
    · next hk =>
      rw [List.nodup_append]
      exact ⟨h, by simp, fun a ha b hb => by
        rw [List.mem_singleton.1 hb]; exact fun he => hk (he ▸ ha)⟩

theorem mem_putAll {pairs m : List (κ × α)} {e : κ × α} (h : e ∈ putAll m pairs) :
    e ∈ m ∨ e ∈ pairs := by
  induction pairs generalizing m with
  | nil => exact Or.inl h
  | cons p pairs ih =>
    rcases ih h with h | h
    · rcases mem_put h with h | h
      · exact Or.inr (h ▸ List.mem_cons_self)
      · exact Or.inl h
    · exact Or.inr (List.mem_cons_of_mem _ h)

theorem putAll_eq_append {pairs m : List (κ × α)} (h : (keys (m ++ pairs)).Nodup) :
    putAll m pairs = m ++ pairs := by
  induction pairs generalizing m with
  | nil => simp [putAll]
  | cons p pairs ih =>
    have hk : p.1 ∉ keys m := by
      intro hm
      unfold keys at h hm
      rw [List.map_append, List.nodup_append] at h
      exact h.2.2 _ hm _ (by simp) rfl
    rw [putAll_cons, put_of_not_mem hk, ih (by simpa using h)]
    simp

/-- Pairs that all have one value give it to their keys. -/
theorem get?_putAll_const (key : κ) (value : α) (m : List (κ × α)) (ks : List κ) :
    get? key (putAll m (ks.map fun k => (k, value))) = if key ∈ ks then some value else get? key m := by
  induction ks generalizing m with
  | nil => rfl
  | cons k ks ih =>
    rw [List.map_cons, putAll_cons, ih]
    by_cases hks : key ∈ ks
    · simp [hks]
    · by_cases hk : key = k
      · simp [hk]
      · simp [hks, hk, get?_put_of_ne hk]

theorem get?_filter {m : List (κ × α)} (h : (keys m).Nodup) (key : κ) (p : α → Bool) :
    get? key (m.filter fun e => p e.2) = (get? key m).filter p := by
  induction m with
  | nil => rfl
  | cons e m ih =>
    obtain ⟨k, v⟩ := e
    unfold keys at ih h
    rw [List.map_cons, List.nodup_cons] at h
    by_cases hk : k = key
    · subst hk
      have hnone : get? k m = none := by
        rw [← Option.not_isSome_iff_eq_none, ← mem_keys_iff]
        exact h.1
      cases hp : p v with
      | true => simp [get?, Option.filter, hp]
      | false => simp [get?, Option.filter, hp, ih h.2, hnone]
    · cases hp : p v with
      | true => simp [get?, hk, hp, ih h.2]
      | false => simp [get?, hk, hp, ih h.2]

theorem ofPairs_eq_self_iff (pairs : List (κ × α)) :
    ofPairs pairs = pairs ↔ (keys pairs).Nodup := by
  constructor
  · intro h
    rw [← h]
    exact nodup_keys_putAll pairs (by simp [keys])
  · intro h
    exact putAll_eq_append h

theorem nodup_keys_ofPairs (pairs : List (κ × α)) : (keys (ofPairs pairs)).Nodup :=
  nodup_keys_putAll pairs (by simp [keys])

theorem mem_of_mem_ofPairs {pairs : List (κ × α)} {e : κ × α} (h : e ∈ ofPairs pairs) :
    e ∈ pairs := by
  rcases mem_putAll h with h | h
  · simp at h
  · exact h

theorem get?_map_pair (key : κ) (ks : List κ) (f : κ → α) :
    get? key (ks.map fun k => (k, f k)) = if key ∈ ks then some (f key) else none := by
  induction ks with
  | nil => rfl
  | cons k ks ih =>
    by_cases hk : k = key
    · simp [get?, hk]
    · simp [get?, hk, Ne.symm hk, ih]

/-! ## Ascending keys -/

section Sorted

variable [LT κ] [DecidableLT κ]

theorem get?_putSorted (j key : κ) (value : α) (m : List (κ × α)) :
    get? j (putSorted key value m) = if j = key then some value else get? j m := by
  induction m with
  | nil => simp only [putSorted, get?, eq_comm]
  | cons p m ih =>
    obtain ⟨k, v⟩ := p
    rw [putSorted]
    by_cases hk : k = key
    · subst hk
      by_cases hj : k = j
      · simp [get?, hj]
      · simp [get?, hj, Ne.symm hj]
    · rw [if_neg hk]
      by_cases hlt : key < k
      · rw [if_pos hlt, get?]
        by_cases hj : key = j
        · simp [hj]
        · simp [hj, Ne.symm hj]
      · rw [if_neg hlt, get?, ih, get?]
        by_cases hj : j = key
        · subst hj
          simp [hk]
        · simp [hj]

theorem mem_keys_putSorted {j key : κ} {value : α} {m : List (κ × α)}
    (h : j ∈ keys (putSorted key value m)) : j = key ∨ j ∈ keys m := by
  rw [mem_keys_iff, get?_putSorted] at h
  by_cases hj : j = key
  · exact Or.inl hj
  · rw [if_neg hj] at h
    exact Or.inr (mem_keys_iff.2 h)

/-- Of the pairs with one key the last counts. -/
theorem get?_sorted (key : κ) (pairs : List (κ × α)) :
    get? key (sorted pairs) = get? key pairs.reverse := by
  have hfold (m : List (κ × α)) : get? key (pairs.foldl (fun m p => putSorted p.1 p.2 m) m) =
      (get? key pairs.reverse).or (get? key m) := by
    induction pairs generalizing m with
    | nil => rfl
    | cons p pairs ih =>
      obtain ⟨k, v⟩ := p
      rw [List.foldl_cons, ih, List.reverse_cons, get?_append, Option.or_assoc, get?_putSorted]
      by_cases hk : k = key
      · simp [get?, hk]
      · simp [get?, hk, Ne.symm hk]
  exact (hfold []).trans (by rw [get?_nil, Option.or_none])

variable [Trans (α := κ) (· < ·) (· < ·) (· < ·)]

section

variable [Std.Trichotomous (α := κ) (· < ·)]

theorem pairwise_keys_putSorted (key : κ) (value : α) {m : List (κ × α)}
    (h : (keys m).Pairwise (· < ·)) : (keys (putSorted key value m)).Pairwise (· < ·) := by
  induction m with
  | nil => exact List.pairwise_singleton _ _
  | cons p m ih =>
    obtain ⟨k, v⟩ := p
    obtain ⟨hfirst, hrest⟩ := List.pairwise_cons.1 h
    rw [putSorted]
    split
    · next hk =>
      subst hk
      exact h
    · next hne =>
      split
      · next hlt =>
        refine .cons ?_ h
        intro j hj
        rcases List.mem_cons.1 hj with rfl | hj
        · exact hlt
        · exact Std.lt_trans hlt (hfirst j hj)
      · next hle =>
        have hlt : k < key := by
          rcases Std.Trichotomous.rel_or_eq_or_rel_swap (r := (· < ·)) (a := k) (b := key) with
            hlt | heq | hgt
          · exact hlt
          · exact absurd heq hne
          · exact absurd hgt hle
        refine .cons ?_ (ih hrest)
        intro j hj
        rcases mem_keys_putSorted hj with rfl | hj
        · exact hlt
        · exact hfirst j hj

theorem pairwise_keys_sorted (pairs : List (κ × α)) : (keys (sorted pairs)).Pairwise (· < ·) := by
  have hfold (m : List (κ × α)) (hm : (keys m).Pairwise (· < ·)) :
      (keys (pairs.foldl (fun m p => putSorted p.1 p.2 m) m)).Pairwise (· < ·) := by
    induction pairs generalizing m with
    | nil => exact hm
    | cons p pairs ih => exact ih _ (pairwise_keys_putSorted p.1 p.2 hm)
  exact hfold [] .nil

end

omit [DecidableLT κ] in
/-- Maps with ascending keys are the same if they have the same values. -/
theorem eq_of_get? [Std.Irrefl (α := κ) (· < ·)] {m m' : List (κ × α)}
    (hm : (keys m).Pairwise (· < ·)) (hm' : (keys m').Pairwise (· < ·))
    (h : ∀ key, get? key m = get? key m') : m = m' := by
  induction m generalizing m' with
  | nil =>
    cases m' with
    | nil => rfl
    | cons p m' =>
      have hfirst := h p.1
      simp [get?] at hfirst
  | cons p m ih =>
    cases m' with
    | nil =>
      have hfirst := h p.1
      simp [get?] at hfirst
    | cons p' m' =>
      obtain ⟨k, v⟩ := p
      obtain ⟨k', v'⟩ := p'
      obtain ⟨hlow, hrest⟩ := List.pairwise_cons.1 hm
      obtain ⟨hlow', hrest'⟩ := List.pairwise_cons.1 hm'
      have hkey : k = k' := by
        have hin : k ∈ keys ((k', v') :: m') := by
          rw [mem_keys_iff, ← h]
          simp [get?]
        have hin' : k' ∈ keys ((k, v) :: m) := by
          rw [mem_keys_iff, h]
          simp [get?]
        rcases List.mem_cons.1 hin with heq | hin
        · exact heq
        · rcases List.mem_cons.1 hin' with heq | hin'
          · exact heq.symm
          · exact absurd (Std.lt_trans (hlow' k hin) (hlow k' hin')) Std.lt_irrefl
      subst hkey
      obtain rfl : v = v' := by simpa [get?] using h k
      refine congrArg (List.cons (k, v)) (ih hrest hrest' fun key => ?_)
      by_cases hk : k = key
      · subst hk
        have hnone {l : List (κ × α)} (hl : ∀ j ∈ keys l, k < j) : get? k l = none := by
          rw [← Option.not_isSome_iff_eq_none, ← mem_keys_iff]
          exact fun hmem => Std.lt_irrefl (hl k hmem)
        rw [hnone hlow, hnone hlow']
      · simpa [get?, hk] using h key

variable [Std.Irrefl (α := κ) (· < ·)]

/-- A key above all others comes at the end. -/
theorem putSorted_of_greatest {key : κ} (value : α) {m : List (κ × α)}
    (h : ∀ j ∈ keys m, j < key) : putSorted key value m = m ++ [(key, value)] := by
  induction m with
  | nil => rfl
  | cons p m ih =>
    obtain ⟨k, v⟩ := p
    obtain ⟨hk, hm⟩ := List.forall_mem_cons.1 h
    have hne : k ≠ key := by
      rintro rfl
      exact Std.lt_irrefl hk
    have hnot : ¬ key < k := fun hlt => Std.lt_irrefl (Std.lt_trans hk hlt)
    rw [putSorted, if_neg hne, if_neg hnot, ih hm, List.cons_append]

/-- A map with ascending keys is in order. -/
theorem sorted_eq_self {m : List (κ × α)} (h : (keys m).Pairwise (· < ·)) : sorted m = m := by
  have hfold (done rest : List (κ × α)) (hall : (keys (done ++ rest)).Pairwise (· < ·)) :
      rest.foldl (fun m p => putSorted p.1 p.2 m) done = done ++ rest := by
    induction rest generalizing done with
    | nil => exact (List.append_nil done).symm
    | cons p rest ih =>
      have hless : ∀ j ∈ keys done, j < p.1 := by
        have happ : keys (done ++ p :: rest) = keys done ++ p.1 :: keys rest := List.map_append
        rw [happ, List.pairwise_append] at hall
        exact fun j hj => hall.2.2 j hj p.1 List.mem_cons_self
      have hregroup : done ++ p :: rest = done ++ [p] ++ rest := by simp
      rw [hregroup] at hall ⊢
      rw [List.foldl_cons, putSorted_of_greatest p.2 hless]
      exact ih (done ++ [p]) hall
  exact hfold [] m h

end Sorted

end CommandShell.Assoc
