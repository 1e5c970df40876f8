import CommandShell.Literal.Item
/-!
# Splitting at the top level

A mark cuts a text only where the splitter stands as it stood at the start: bare, and outside
all brackets.  So behind a cut the splitting starts afresh, and a text is either uncut or a
closed part, a mark and a shorter text.

    splitTop mark s = [s], or splitTop mark (a ++ mark :: b) = a :: splitTop mark b
                                                                   (splitTop_cases)
    joining the parts of splitTop mark s with mark gives s         (intercalate_splitTop)
    splitTop mark of joined parts gives the parts
      ↔ no part is cut, and all but the last are balanced          (splitTop_intercalate_iff)
    cutEntry e = some (k, v)
      ↔ e = k ++ ':' :: v for a closed k                           (cutEntry_eq_some_iff)
    no part of splitTop mark s is cut, so each is its own only part
                                                                   (splitting_loses_nothing)
-/

namespace CommandShell.Literal

open CommandShell.Text CommandShell.Line

/-- Where the splitter stands: its mode, and how many brackets are open around it. -/
structure Place where
  mode : Mode
  depth : Nat
  deriving DecidableEq

namespace Place

def start : Place := ⟨.start, 0⟩

/-- The place behind one more character; brackets count in a bare mode only. -/
def advance (p : Place) (c : Char) : Place :=
  ⟨p.mode.advance c,
    if p.mode.bare then
      if (Bracket.ofOpening? c).isSome then p.depth + 1
      else if isClosing c then p.depth - 1
      else p.depth
    else p.depth⟩

/-- The place behind a whole text. -/
def advanceAll (p : Place) (s : List Char) : Place := s.foldl advance p

@[simp] theorem advanceAll_nil (p : Place) : p.advanceAll [] = p := rfl

@[simp] theorem advanceAll_cons (p : Place) (c : Char) (s : List Char) :
    p.advanceAll (c :: s) = (p.advance c).advanceAll s := rfl

@[simp] theorem advanceAll_append (p : Place) (s t : List Char) :
    p.advanceAll (s ++ t) = (p.advanceAll s).advanceAll t := by
  simp [advanceAll]

/-- A place is the start again if it is bare and outside all brackets. -/
theorem eq_start_iff (p : Place) : p = start ↔ p.mode.bare = true ∧ p.depth = 0 := by
  constructor
  · rintro rfl
    exact ⟨rfl, rfl⟩
  · obtain ⟨mode, depth⟩ := p
    rintro ⟨hm, hd⟩
    show Place.mk mode depth = _
    rw [show mode = .start from Mode.start_of_bare hm, show depth = 0 from hd]
    rfl

end Place

/-- A character that can stand between parts: no bracket, no quote mark and no backslash. -/
def IsMark (c : Char) : Prop :=
  Bracket.ofOpening? c = none ∧ isClosing c = false ∧ c ≠ '\\' ∧ c ≠ '\'' ∧ c ≠ '"'

instance (c : Char) : Decidable (IsMark c) := by unfold IsMark; infer_instance

theorem isMark_comma : IsMark ',' := by decide

theorem isMark_colon : IsMark ':' := by decide

/-- No `mark` in the text stands at the top level, when the text is read from the place on. -/
def Uncut (mark : Char) : Place → List Char → Prop
  | _, [] => True
  | p, c :: s => ¬ (p = .start ∧ c = mark) ∧ Uncut mark (p.advance c) s

instance Uncut.decide (mark : Char) : (p : Place) → (s : List Char) → Decidable (Uncut mark p s)
  | _, [] => isTrue trivial
  | p, c :: s =>
    have := Uncut.decide mark (p.advance c) s
    inferInstanceAs (Decidable (_ ∧ _))

/-- Quotes, escapes and brackets that the text opens it also closes. -/
def Balanced (s : List Char) : Prop := Place.start.advanceAll s = .start

instance (s : List Char) : Decidable (Balanced s) := by unfold Balanced; infer_instance

/-- A part behind which a mark cuts. -/
def Closed (mark : Char) (s : List Char) : Prop := Uncut mark .start s ∧ Balanced s

instance (mark : Char) (s : List Char) : Decidable (Closed mark s) :=
  inferInstanceAs (Decidable (_ ∧ _))

/-! ## One step of the splitter -/

theorem advance_mark {mark : Char} (h : IsMark mark) : Place.start.advance mark = .start := by
  obtain ⟨ho, hc, h1, h2, h3⟩ := h
  have hstep := (step_none_eq_none_iff mark).2 ⟨h2, h3⟩
  simp [Place.advance, Place.start, Mode.start, Mode.advance, Mode.bare, ho, hc, h1, hstep]

theorem splitTopFrom_cons {mark : Char} (h : IsMark mark) (p : Place) (part : List Char) (c : Char)
    (s : List Char) :
    splitTopFrom mark p.mode p.depth part (c :: s) =
      if p = .start ∧ c = mark then part.reverse :: splitTop mark s
      else splitTopFrom mark (p.advance c).mode (p.advance c).depth (c :: part) s := by
  by_cases hcut : p = .start ∧ c = mark
  · obtain ⟨rfl, rfl⟩ := hcut
    have hm : Place.start.mode.advance c = .start := congrArg Place.mode (advance_mark h)
    rw [splitTopFrom, if_pos (show Place.start = .start ∧ c = c from ⟨rfl, rfl⟩), hm]
    simp [Place.start, Mode.start, Mode.bare, h.1, h.2.1, splitTop]
  · rw [if_neg hcut, splitTopFrom, Place.advance]
    by_cases hb : p.mode.bare = true
    · have hne : ¬ (c = mark ∧ p.depth = 0) := by
        rintro ⟨hc, hd⟩
        exact hcut ⟨(Place.eq_start_iff p).2 ⟨hb, hd⟩, hc⟩
      simp only [hb, if_true, if_neg hne]
      split
      · rfl
      · split <;> rfl
    · simp [hb]

/-! ## Uncut texts and the first cut -/

theorem uncut_append {mark : Char} (p : Place) (s t : List Char) :
    Uncut mark p (s ++ t) ↔ Uncut mark p s ∧ Uncut mark (p.advanceAll s) t := by
  induction s generalizing p with
  | nil => simp [Uncut]
  | cons c s ih => simp only [List.cons_append, Uncut, ih, Place.advanceAll_cons, and_assoc]

theorem splitTopFrom_of_uncut {mark : Char} (h : IsMark mark) (s : List Char) :
    ∀ (p : Place) (part : List Char), Uncut mark p s →
      splitTopFrom mark p.mode p.depth part s = [part.reverse ++ s] := by
  induction s with
  | nil => intro p part _; simp [splitTopFrom]
  | cons c s ih =>
    intro p part hs
    rw [splitTopFrom_cons h, if_neg hs.1, ih _ _ hs.2]
    simp

theorem splitTopFrom_append {mark : Char} (h : IsMark mark) (a b : List Char) :
    ∀ (p : Place) (part : List Char), Uncut mark p a → p.advanceAll a = .start →
      splitTopFrom mark p.mode p.depth part (a ++ mark :: b) =
        (part.reverse ++ a) :: splitTop mark b := by
  induction a with
  | nil =>
    intro p part _ hp
    rw [List.nil_append, splitTopFrom_cons h, if_pos ⟨hp, rfl⟩, List.append_nil]
  | cons c a ih =>
    intro p part ha hp
    rw [List.cons_append, splitTopFrom_cons h, if_neg ha.1, ih _ _ ha.2 hp]
    simp

/-- A text that is not uncut has a first cut. -/
theorem uncut_or_cut (mark : Char) (s : List Char) (p : Place) :
    Uncut mark p s ∨ ∃ a b, s = a ++ mark :: b ∧ Uncut mark p a ∧ p.advanceAll a = .start := by
  induction s generalizing p with
  | nil => exact Or.inl trivial
  | cons c s ih =>
    by_cases hc : p = .start ∧ c = mark
    · obtain ⟨rfl, rfl⟩ := hc
      exact Or.inr ⟨[], s, rfl, trivial, rfl⟩
    · rcases ih (p.advance c) with hs | ⟨a, b, rfl, ha, hp⟩
      · exact Or.inl ⟨hc, hs⟩
      · exact Or.inr ⟨c :: a, b, rfl, ⟨hc, ha⟩, hp⟩

variable {mark : Char} (h : IsMark mark)

include h

theorem splitTop_of_uncut {s : List Char} (hs : Uncut mark .start s) : splitTop mark s = [s] :=
  splitTopFrom_of_uncut h s .start [] hs

theorem splitTop_append {a : List Char} (ha : Closed mark a) (b : List Char) :
    splitTop mark (a ++ mark :: b) = a :: splitTop mark b :=
  splitTopFrom_append h a b .start [] ha.1 ha.2

theorem splitTop_cases (s : List Char) :
    (Uncut mark .start s ∧ splitTop mark s = [s]) ∨
      ∃ a b, s = a ++ mark :: b ∧ Closed mark a ∧ splitTop mark s = a :: splitTop mark b := by
  rcases uncut_or_cut mark s .start with hs | ⟨a, b, rfl, ha, hp⟩
  · exact Or.inl ⟨hs, splitTop_of_uncut h hs⟩
  · exact Or.inr ⟨a, b, rfl, ⟨ha, hp⟩, splitTop_append h ⟨ha, hp⟩ b⟩

theorem splitTop_ne_nil (s : List Char) : splitTop mark s ≠ [] := by
  rcases splitTop_cases h s with ⟨-, hs⟩ | ⟨a, b, -, -, hs⟩ <;> rw [hs] <;> simp

/-! ## Joining and splitting -/

/-- Nothing is lost: the parts joined by the mark are the text. -/
theorem intercalate_splitTop (s : List Char) : [mark].intercalate (splitTop mark s) = s := by
  induction hn : s.length using Nat.strongRecOn generalizing s with
  | ind n ih =>
    rcases splitTop_cases h s with ⟨-, hs⟩ | ⟨a, b, rfl, -, hs⟩
    · rw [hs, List.intercalate_singleton]
    · rw [hs]
      obtain ⟨x, xs, hb⟩ := List.exists_cons_of_ne_nil (splitTop_ne_nil h b)
      have hlen : b.length < n := by rw [← hn]; simp; omega
      have := ih b.length hlen b rfl
      rw [hb] at this ⊢
      rw [List.intercalate_cons_cons, this]
      simp

theorem splitTop_eq_singleton_iff (x : List Char) :
    splitTop mark x = [x] ↔ Uncut mark .start x := by
  refine ⟨fun hx => ?_, splitTop_of_uncut h⟩
  rcases splitTop_cases h x with ⟨hu, -⟩ | ⟨a, b, rfl, -, hs⟩
  · exact hu
  · rw [hs, List.cons.injEq] at hx
    exact absurd hx.2 (splitTop_ne_nil h b)

theorem splitTop_intercalate_iff {xs : List (List Char)} (hne : xs ≠ []) :
    splitTop mark ([mark].intercalate xs) = xs ↔
      (∀ x ∈ xs, Uncut mark .start x) ∧ ∀ x ∈ xs.dropLast, Balanced x := by
  induction xs with
  | nil => exact absurd rfl hne
  | cons x xs ih =>
    cases xs with
    | nil =>
      rw [List.intercalate_singleton, splitTop_eq_singleton_iff h]
      simp
    | cons y ys =>
      have hj : [mark].intercalate (x :: y :: ys) = x ++ mark :: [mark].intercalate (y :: ys) := by
        rw [List.intercalate_cons_cons]; simp
      rw [hj]
      constructor
      · intro hsplit
        rcases splitTop_cases h (x ++ mark :: [mark].intercalate (y :: ys)) with
          ⟨-, hs⟩ | ⟨a, b, he, ha, hs⟩
        · rw [hs] at hsplit
          simp at hsplit
        · rw [hs] at hsplit
          obtain ⟨rfl, hrest⟩ := List.cons.inj hsplit
          have hb : [mark].intercalate (y :: ys) = b := by simpa using he
          rw [← hb] at hrest
          obtain ⟨hu, hbal⟩ := (ih (by simp)).1 hrest
          refine ⟨?_, ?_⟩
          · intro z hz
            rcases List.mem_cons.1 hz with rfl | hz
            · exact ha.1
            · exact hu z hz
          · intro z hz
            rw [List.dropLast_cons_of_ne_nil (by simp)] at hz
            rcases List.mem_cons.1 hz with rfl | hz
            · exact ha.2
            · exact hbal z hz
      · rintro ⟨hu, hbal⟩
        rw [List.dropLast_cons_of_ne_nil (by simp)] at hbal
        have hx : Closed mark x := ⟨hu x List.mem_cons_self, hbal x List.mem_cons_self⟩
        rw [splitTop_append h hx,
          (ih (by simp)).2 ⟨fun z hz => hu z (List.mem_cons_of_mem _ hz),
            fun z hz => hbal z (List.mem_cons_of_mem _ hz)⟩]

omit h

/-! ## Entries -/

theorem cutEntry_eq_some_iff (e k v : List Char) :
    cutEntry e = some (k, v) ↔ e = k ++ ':' :: v ∧ Closed ':' k := by
  constructor
  · intro he
    rcases splitTop_cases isMark_colon e with ⟨-, hs⟩ | ⟨a, b, rfl, ha, hs⟩
    · simp [cutEntry, hs] at he
    · obtain ⟨x, xs, hb⟩ := List.exists_cons_of_ne_nil (splitTop_ne_nil isMark_colon b)
      simp only [cutEntry, hs, hb, Option.some.injEq, Prod.mk.injEq] at he
      obtain ⟨rfl, hv⟩ := he
      refine ⟨?_, ha⟩
      rw [← hv]
      simp [List.drop_append]
  · rintro ⟨rfl, hk⟩
    obtain ⟨x, xs, hb⟩ := List.exists_cons_of_ne_nil (splitTop_ne_nil isMark_colon v)
    simp [cutEntry, splitTop_append isMark_colon hk, hb, List.drop_append]

theorem cutEntry_eq_none_iff (e : List Char) : cutEntry e = none ↔ Uncut ':' .start e := by
  rcases splitTop_cases isMark_colon e with ⟨hu, hs⟩ | ⟨a, b, rfl, ha, hs⟩
  · simp [cutEntry, hs, hu]
  · have hcut : ¬ Uncut ':' .start (a ++ ':' :: b) := by
      rw [uncut_append, Uncut]
      exact fun h => h.2.1 ⟨ha.2, rfl⟩
    rw [(cutEntry_eq_some_iff _ a b).2 ⟨rfl, ha⟩]
    exact iff_of_false (Option.some_ne_none (a, b)) hcut

/-- The value of an entry begins one byte behind its key. -/
theorem slice_value (k v : List Char) :
    Slice (k ++ ':' :: v) (byteLength k + 1) (byteLength (k ++ ':' :: v)) v := by
  have hcolon : byteLength (k ++ [':']) = byteLength k + 1 := byteLength_append k [':']
  exact ⟨k ++ [':'], [], by simp, hcolon.symm, by simp⟩

/-! ## Parts by themselves -/

/-- **Splitting loses nothing and leaves nothing to split.**  The parts joined by their mark are the
text; a part has no mark at its top level, so split again it is its own only part.  A text without
a colon at its top level is no entry; any other is its key, a colon and its value, the key has no
such colon, and the value is what stands from the byte behind the colon on. -/
theorem splitting_loses_nothing (s : List Char) :
    (∀ mark ∈ [',', ':'], [mark].intercalate (splitTop mark s) = s ∧
      ∀ part ∈ splitTop mark s, Uncut mark .start part ∧ splitTop mark part = [part]) ∧
    (cutEntry s = none ↔ Uncut ':' .start s) ∧
    ∀ k v, cutEntry s = some (k, v) → k ++ ':' :: v = s ∧ Uncut ':' .start k ∧
      Slice s (byteLength k + 1) (byteLength s) v ∧
      entry? s = some (unquote (trim k), unquote (trim v)) := by
  refine ⟨fun mark hmark => ?_, cutEntry_eq_none_iff s, fun k v h => ?_⟩
  · have h : IsMark mark := by
      rcases List.mem_cons.1 hmark with rfl | hmark
      · exact isMark_comma
      · rw [List.mem_singleton.1 hmark]
        exact isMark_colon
    have hjoin := intercalate_splitTop h s
    obtain ⟨huncut, -⟩ :=
      (splitTop_intercalate_iff h (splitTop_ne_nil h s)).1 (congrArg (splitTop mark) hjoin)
    exact ⟨hjoin, fun part hpart =>
      ⟨huncut part hpart, (splitTop_eq_singleton_iff h part).2 (huncut part hpart)⟩⟩
  · obtain ⟨rfl, hk⟩ := (cutEntry_eq_some_iff s k v).1 h
    refine ⟨rfl, hk.1, slice_value k v, ?_⟩
    unfold entry?
    rw [h]
    rfl

/-- A stray closing bracket, quoted, bracketed and escaped marks, and a backslash that nothing
follows; a key with colons in brackets and quotes. -/
example : splitTop ',' "a],'b,c',(d,\\),e),\\,\\".toList =
      ["a]".toList, "'b,c'".toList, "(d,\\),e)".toList, "\\,\\".toList] ∧
    cutEntry "[k:]'x:':\\:é:'w:".toList = some ("[k:]'x:'".toList, "\\:é:'w:".toList) := by
  decide

end CommandShell.Literal
