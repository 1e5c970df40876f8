import CommandShell.Proofs.Literal.RoundTrip
/-!
# Items written with backslashes

An item can be written with a backslash before each of its characters.  The splitter and the reader
of an item know such escapes; the trimming between them does not.  It takes an escaped blank at the
end of an item for a blank around it, and the backslash in front of that blank stays behind alone.

    shorn x         x with a backslash in place of a blank at its end
    the items written so are read as their shorn texts           (items_escapedItems)
    they come back ↔ none of them ends with a blank              (escapedItems_come_back_iff)
-/

namespace CommandShell.Literal

open CommandShell.Text CommandShell.Line

/-- The inside of a literal whose items have a backslash before every character. -/
def escapedItems (xs : List (List Char)) : List Char := [','].intercalate (xs.map escaped)

/-- Whether the last character of the text is a blank. -/
def endsBlank (x : List Char) : Bool := x.getLast?.any isBlank

/-- The text with a backslash in place of a blank at its end. -/
def shorn (x : List Char) : List Char := if endsBlank x then x.dropLast ++ ['\\'] else x

theorem endsBlank_concat (x : List Char) (c : Char) : endsBlank (x ++ [c]) = isBlank c := by
  rw [endsBlank, List.getLast?_concat, Option.any_some]

theorem shorn_concat (x : List Char) (c : Char) :
    shorn (x ++ [c]) = x ++ [if isBlank c then '\\' else c] := by
  rw [shorn, endsBlank_concat, List.dropLast_concat]
  split <;> rfl

/-- A text keeps what it ends with unless that is a blank. -/
theorem shorn_eq_self_iff (x : List Char) : shorn x = x ↔ endsBlank x = false := by
  rcases List.eq_nil_or_concat' x with rfl | ⟨y, c, rfl⟩
  · exact iff_of_true rfl rfl
  · rw [shorn_concat, endsBlank_concat, List.append_cancel_left_eq, List.cons.injEq]
    cases hc : isBlank c with
    | false => simp
    | true =>
      have hslash : '\\' ≠ c := by
        rintro rfl
        cases hc
      simp [hslash]

/-! ## One item -/

theorem escaped_append (x y : List Char) : escaped (x ++ y) = escaped x ++ escaped y := by
  induction x with
  | nil => rfl
  | cons c x ih => rw [List.cons_append, escaped, escaped, ih]; rfl

/-- No character of the item cuts: each stands behind its backslash. -/
theorem closed_escaped {mark : Char} (h : IsMark mark) (x : List Char) :
    Closed mark (escaped x) := by
  induction x with
  | nil => exact ⟨trivial, rfl⟩
  | cons c x ih =>
    have hescape : Place.start.advance '\\' = ⟨.escaping .none, 0⟩ := rfl
    have hback : Place.advance ⟨.escaping .none, 0⟩ c = .start := rfl
    have hne : (⟨.escaping .none, 0⟩ : Place) ≠ .start := by simp [Place.start, Mode.start]
    obtain ⟨huncut, hbalanced⟩ := ih
    refine ⟨?_, ?_⟩
    · rw [escaped, Uncut, hescape, Uncut, hback]
      exact ⟨fun hc => h.2.2.1 hc.2.symm, fun hc => hne hc.1, huncut⟩
    · rw [Balanced, escaped, Place.advanceAll_cons, hescape, Place.advanceAll_cons, hback]
      exact hbalanced

theorem trimStart_escaped (x : List Char) : trimStart (escaped x) = escaped x := by
  cases x with
  | nil => rfl
  | cons c x => exact trimStart_cons_of_not_blank (by decide) (c :: escaped x)

/-- Only the last character can be lost to trimming, and its backslash is not. -/
theorem trim_escaped_concat (x : List Char) (c : Char) :
    trim (escaped (x ++ [c])) = escaped x ++ '\\' :: trimEnd [c] := by
  have hslash : trimEnd ['\\'] = ['\\'] := by decide
  have hpair : trimEnd (escaped [c]) = '\\' :: trimEnd [c] := trimEnd_append hslash [c]
  rw [trim, trimStart_escaped, escaped_append]
  exact (trimEnd_append_of_ne_nil (escaped x) (by rw [hpair]; simp)).trans (by rw [hpair])

/-- Trimming and unquoting leave the item, but for a blank at its end. -/
theorem unquote_trim_escaped (x : List Char) : unquote (trim (escaped x)) = shorn x := by
  rcases List.eq_nil_or_concat' x with rfl | ⟨y, c, rfl⟩
  · rfl
  · have hread (s : List Char) : unquote (escaped y ++ s) = y ++ unquote s := writes_escaped y s
    rw [trim_escaped_concat, shorn_concat, hread]
    cases hc : isBlank c with
    | true =>
      have hlost : trimEnd [c] = [] := (trimEnd_eq_nil_iff [c]).2 (by simpa using hc)
      rw [hlost]
      rfl
    | false =>
      have hkept : trimEnd [c] = [c] :=
        (trimEnd_eq_self_iff [c]).2 fun d hd => Option.some.inj hd ▸ hc
      rw [hkept]
      exact congrArg (y ++ ·) (unquote_escaped [c])

/-! ## All items -/

/-- Unless it is a single empty item, what is written is not blank. -/
theorem trim_escapedItems_ne_nil {xs : List (List Char)} (hne : xs ≠ []) (hone : xs ≠ [[]]) :
    trim (escapedItems xs) ≠ [] := by
  intro hblank
  have hall := (trim_eq_nil_iff _).1 hblank
  match xs with
  | [] => exact hne rfl
  | [[]] => exact hone rfl
  | [c :: x] =>
    have hslash : '\\' ∈ escapedItems [c :: x] := List.mem_cons_self
    exact absurd (hall _ hslash) (by decide)
  | x :: y :: xs =>
    have hcomma : ',' ∈ escapedItems (x :: y :: xs) := by
      rw [escapedItems, List.map_cons, List.map_cons, List.intercalate_cons_cons]
      simp
    exact absurd (hall _ hcomma) (by decide)

theorem items_escapedItems {xs : List (List Char)} (hone : xs ≠ [[]]) :
    items (escapedItems xs) = xs.map shorn := by
  by_cases hne : xs = []
  · rw [hne]
    rfl
  · have hclosed : ∀ p ∈ xs.map escaped, Closed ',' p := by
      intro p hp
      obtain ⟨x, -, rfl⟩ := List.mem_map.1 hp
      exact closed_escaped isMark_comma x
    have hparts : xs.map escaped ≠ [] := fun h => hne (List.map_eq_nil_iff.1 h)
    refine (items_of_closed hparts hclosed (trim_escapedItems_ne_nil hne hone)).trans ?_
    rw [List.map_map]
    exact List.map_congr_left fun x _ => unquote_trim_escaped x

/-- **Items written with backslashes come back exactly if none of them ends with a blank**; a
single empty item is no item. -/
theorem escapedItems_come_back_iff (xs : List (List Char)) :
    items (escapedItems xs) = xs ↔ xs ≠ [[]] ∧ ∀ x ∈ xs, endsBlank x = false := by
  by_cases hone : xs = [[]]
  · subst hone
    exact iff_of_false (by decide) fun h => h.1 rfl
  · rw [items_escapedItems hone]
    constructor
    · intro h
      have heach : ∀ x ∈ xs, shorn x = x :=
        List.map_inj_left.1 (h.trans (List.map_id' xs).symm)
      exact ⟨hone, fun x hx => (shorn_eq_self_iff x).1 (heach x hx)⟩
    · rintro ⟨-, h⟩
      have heach : ∀ x ∈ xs, shorn x = x := fun x hx => (shorn_eq_self_iff x).2 (h x hx)
      exact (List.map_congr_left heach).trans (List.map_id' xs)

/-- An escaped blank is an item of one character, and what is read is its backslash. -/
theorem escapedItems_blank_lost :
    ¬ ∀ xs : List (List Char), xs ≠ [] → (∀ x ∈ xs, x ≠ []) → items (escapedItems xs) = xs := by
  intro h
  have hread : items (escapedItems [[' ']]) = [['\\']] := by decide
  have hback := h [[' ']] (by simp) (by simp)
  rw [hread] at hback
  cases hback

end CommandShell.Literal
