/-!
# Blank characters and trimming

`isBlank` is the Unicode property `White_Space`.  Words of a line, items of a literal and
numbers are cut at these characters and at no others, so a zero-width space or a byte order
mark belongs to the word it stands in.

    c.isWhitespace → isBlank c                                     (isBlank_of_isWhitespace)
    trimStart s = s ↔ s starts with no blank                       (trimStart_eq_self_iff)
    trim s = s ↔ s neither starts nor ends with a blank            (trim_eq_self_iff)
-/

namespace CommandShell.Text

/-- The 25 characters of the Unicode property `White_Space`. -/
def isBlank (c : Char) : Bool :=
  let n := c.toNat
  (9 ≤ n && n ≤ 13) || n == 0x20 || n == 0x85 || n == 0xA0 || n == 0x1680 ||
    (0x2000 ≤ n && n ≤ 0x200A) || n == 0x2028 || n == 0x2029 || n == 0x202F || n == 0x205F ||
    n == 0x3000

/-- The text without the blanks it starts with. -/
def trimStart (s : List Char) : List Char := s.dropWhile isBlank

/-- The text without the blanks it ends with. -/
def trimEnd (s : List Char) : List Char := (s.reverse.dropWhile isBlank).reverse

/-- The text without the blanks around it. -/
def trim (s : List Char) : List Char := trimEnd (trimStart s)

/-- Whether the text holds blanks only. -/
def allBlank (s : List Char) : Bool := s.all isBlank

/-- `trim` on strings. -/
def trimmed (s : String) : String := String.ofList (trim s.toList)

/-- Cuts the text at its first blank, which belongs to neither part. -/
def cutAtBlank : List Char → Option (List Char × List Char)
  | [] => none
  | c :: rest =>
    if isBlank c then some ([], rest) else (cutAtBlank rest).map fun (a, b) => (c :: a, b)

/-- Cuts the text at the first `mark`, which belongs to neither part. -/
def cutAt (mark : Char) : List Char → Option (List Char × List Char)
  | [] => none
  | c :: rest =>
    if c = mark then some ([], rest) else (cutAt mark rest).map fun (a, b) => (c :: a, b)

/-- The pieces of the text between the `mark`s, one more than there are `mark`s. -/
def splitAt (mark : Char) : List Char → List (List Char)
  | [] => [[]]
  | c :: rest =>
    if c = mark then [] :: splitAt mark rest
    else match splitAt mark rest with
      | [] => [[c]]
      | piece :: pieces => (c :: piece) :: pieces

/-! ## Lemmas -/

theorem isBlank_of_isWhitespace (c : Char) (h : c.isWhitespace) : isBlank c := by
  simp only [Char.isWhitespace, Bool.or_eq_true, decide_eq_true_eq] at h
  rcases h with ((h | h) | h) | h <;> subst h <;> decide

@[simp] theorem trimStart_nil : trimStart [] = [] := rfl

@[simp] theorem trimEnd_nil : trimEnd [] = [] := rfl

theorem trimStart_cons_of_not_blank {c : Char} (h : isBlank c = false) (s : List Char) :
    trimStart (c :: s) = c :: s := by
  simp [trimStart, h]

theorem trimStart_sublist (s : List Char) : (trimStart s).Sublist s :=
  List.dropWhile_sublist isBlank

theorem trimStart_eq_self_iff (s : List Char) :
    trimStart s = s ↔ ∀ c, s.head? = some c → isBlank c = false := by
  cases s with
  | nil => simp
  | cons c s =>
    cases h : isBlank c with
    | false => simp [trimStart, h]
    | true =>
      have hlen : (trimStart (c :: s)).length < (c :: s).length := by
        simp only [trimStart, List.dropWhile_cons, h, if_true, List.length_cons]
        have : (s.dropWhile isBlank).length ≤ s.length := (trimStart_sublist s).length_le
        omega
      constructor
      · intro he; rw [he] at hlen; omega
      · intro hc; simpa [h] using hc c rfl

theorem trimEnd_eq_reverse (s : List Char) : trimEnd s = (trimStart s.reverse).reverse := rfl

theorem trimEnd_eq_self_iff (s : List Char) :
    trimEnd s = s ↔ ∀ c, s.getLast? = some c → isBlank c = false := by
  rw [trimEnd_eq_reverse, List.reverse_eq_iff, trimStart_eq_self_iff, List.head?_reverse]

theorem trimEnd_sublist (s : List Char) : (trimEnd s).Sublist s := by
  have := trimStart_sublist s.reverse
  rwa [← List.reverse_sublist, List.reverse_reverse, ← trimEnd_eq_reverse] at this

theorem trim_sublist (s : List Char) : (trim s).Sublist s :=
  (trimEnd_sublist _).trans (trimStart_sublist s)

theorem trim_eq_self_iff (s : List Char) :
    trim s = s ↔ (∀ c, s.head? = some c → isBlank c = false) ∧
      ∀ c, s.getLast? = some c → isBlank c = false := by
  rw [← trimStart_eq_self_iff, ← trimEnd_eq_self_iff]
  constructor
  · intro h
    have h1 : trimStart s = s := by
      have hlen := (trimEnd_sublist (trimStart s)).length_le
      rw [show trimEnd (trimStart s) = s from h] at hlen
      exact (trimStart_sublist s).eq_of_length_le hlen
    unfold trim at h
    rw [h1] at h
    exact ⟨h1, h⟩
  · rintro ⟨h1, h2⟩
    rw [trim, h1, h2]

theorem trimStart_eq_nil_iff (s : List Char) : trimStart s = [] ↔ ∀ c ∈ s, isBlank c = true := by
  induction s with
  | nil => simp
  | cons c s ih =>
    cases hc : isBlank c with
    | false => simp [trimStart, hc]
    | true =>
      unfold trimStart at ih ⊢
      simp [hc, ih]

theorem trim_eq_nil_iff (s : List Char) : trim s = [] ↔ ∀ c ∈ s, isBlank c = true := by
  rw [trim, trimEnd_eq_reverse, List.reverse_eq_nil_iff, trimStart_eq_nil_iff]
  constructor
  · intro h
    rw [← trimStart_eq_nil_iff]
    apply Classical.byContradiction
    intro hne
    -- what the trimmed text begins with is no blank
    have hhead : isBlank ((trimStart s).head hne) = false := List.head_dropWhile_not isBlank hne
    rw [h _ (List.mem_reverse.2 (List.head_mem hne))] at hhead
    cases hhead
  · intro h c hc
    exact h c ((trimStart_sublist s).subset (List.mem_reverse.1 hc))

theorem mem_trimStart_of_not_blank {c : Char} {s : List Char} (h : c ∈ s)
    (hblank : isBlank c = false) : c ∈ trimStart s := by
  rw [← List.takeWhile_append_dropWhile (p := isBlank) (l := s), List.mem_append] at h
  rcases h with h | h
  · have := List.all_eq_true.1 List.all_takeWhile c h
    rw [hblank] at this
    cases this
  · exact h

theorem mem_trim_of_not_blank {c : Char} {s : List Char} (h : c ∈ s)
    (hblank : isBlank c = false) : c ∈ trim s := by
  rw [trim, trimEnd_eq_reverse, List.mem_reverse]
  refine mem_trimStart_of_not_blank (List.mem_reverse.2 ?_) hblank
  exact mem_trimStart_of_not_blank h hblank

theorem cutAtBlank_eq_none_iff (s : List Char) :
    cutAtBlank s = none ↔ ∀ c ∈ s, isBlank c = false := by
  induction s with
  | nil => simp [cutAtBlank]
  | cons c s ih => cases h : isBlank c <;> simp [cutAtBlank, h, ih]

theorem cutAtBlank_eq_some {s a b : List Char} (h : cutAtBlank s = some (a, b)) :
    ∃ c, isBlank c = true ∧ s = a ++ c :: b ∧ ∀ x ∈ a, isBlank x = false := by
  induction s generalizing a with
  | nil => simp [cutAtBlank] at h
  | cons c s ih =>
    cases hc : isBlank c with
    | true =>
      simp only [cutAtBlank, hc, if_true, Option.some.injEq, Prod.mk.injEq] at h
      obtain ⟨rfl, rfl⟩ := h
      exact ⟨c, hc, rfl, by simp⟩
    | false =>
      simp only [cutAtBlank, hc, Bool.false_eq_true, if_false, Option.map_eq_some_iff,
        Prod.mk.injEq] at h
      obtain ⟨⟨a', b'⟩, h', rfl, rfl⟩ := h
      obtain ⟨d, hd, rfl, hall⟩ := ih h'
      exact ⟨d, hd, rfl, by simpa [hc] using hall⟩

theorem cutAt_eq_some {mark : Char} {s a b : List Char} (h : cutAt mark s = some (a, b)) :
    s = a ++ mark :: b ∧ mark ∉ a := by
  induction s generalizing a with
  | nil => simp [cutAt] at h
  | cons c s ih =>
    by_cases hc : c = mark
    · simp only [cutAt, hc, if_true, Option.some.injEq, Prod.mk.injEq] at h
      obtain ⟨rfl, rfl⟩ := h
      exact ⟨by simp [hc], by simp⟩
    · simp only [cutAt, hc, if_false, Option.map_eq_some_iff, Prod.mk.injEq] at h
      obtain ⟨⟨a', b'⟩, h', rfl, rfl⟩ := h
      obtain ⟨rfl, hm⟩ := ih h'
      exact ⟨rfl, by simp [Ne.symm hc, hm]⟩

theorem cutAt_append {mark : Char} {a : List Char} (h : mark ∉ a) (b : List Char) :
    cutAt mark (a ++ mark :: b) = some (a, b) := by
  induction a with
  | nil => rw [List.nil_append, cutAt, if_pos rfl]
  | cons c a ih =>
    rw [List.mem_cons, not_or] at h
    rw [List.cons_append, cutAt, if_neg (Ne.symm h.1), ih h.2]
    rfl

/-! ## Blanks at a seam -/

section Seam

variable {a b s : List Char}

theorem not_blank_of_all (h : (s.all fun c => !isBlank c) = true) : ∀ c ∈ s, isBlank c = false := by
  simpa using h

theorem trimStart_append_of_blank (ha : ∀ c ∈ a, isBlank c = true) (b : List Char) :
    trimStart (a ++ b) = trimStart b := by
  have hdrop : a.dropWhile isBlank = [] := (trimStart_eq_nil_iff a).2 ha
  rw [trimStart, List.dropWhile_append, hdrop]
  rfl

theorem trimStart_append_of_not_blank (ha : trimStart a = a) (hne : a ≠ []) (b : List Char) :
    trimStart (a ++ b) = a ++ b := by
  have hdrop : a.dropWhile isBlank = a := ha
  rw [trimStart, List.dropWhile_append, hdrop, if_neg (by simpa using hne)]

theorem trimEnd_append_of_blank (a : List Char) (hb : ∀ c ∈ b, isBlank c = true) :
    trimEnd (a ++ b) = trimEnd a := by
  rw [trimEnd_eq_reverse, List.reverse_append,
    trimStart_append_of_blank fun c hc => hb c (List.mem_reverse.1 hc)]
  rfl

theorem trimEnd_append_of_ne_nil (a : List Char) (hb : trimEnd b ≠ []) :
    trimEnd (a ++ b) = a ++ trimEnd b := by
  have hdrop : (b.reverse.dropWhile isBlank).isEmpty = false :=
    List.isEmpty_eq_false_iff.2 fun h => hb (by rw [trimEnd, h, List.reverse_nil])
  rw [trimEnd, List.reverse_append, List.dropWhile_append, hdrop]
  simp [trimEnd]

theorem trimEnd_eq_nil_iff (s : List Char) : trimEnd s = [] ↔ ∀ c ∈ s, isBlank c = true := by
  rw [trimEnd_eq_reverse, List.reverse_eq_nil_iff, trimStart_eq_nil_iff]
  simp only [List.mem_reverse]

theorem trimEnd_trimEnd (s : List Char) : trimEnd (trimEnd s) = trimEnd s := by
  refine (trimEnd_eq_self_iff _).2 fun c hc => ?_
  rw [trimEnd, List.getLast?_reverse] at hc
  have hhead := List.head?_dropWhile_not isBlank s.reverse
  rw [hc] at hhead
  exact hhead

/-- Behind a text that ends with no blank only what follows is trimmed. -/
theorem trimEnd_append (ha : trimEnd a = a) (b : List Char) :
    trimEnd (a ++ b) = a ++ trimEnd b := by
  by_cases hb : trimEnd b = []
  · rw [hb, List.append_nil, trimEnd_append_of_blank a ((trimEnd_eq_nil_iff b).1 hb), ha]
  · exact trimEnd_append_of_ne_nil a hb

/-- Trimming at the end leaves a text that begins with no blank as it begins. -/
theorem trimStart_trimEnd_of_not_blank {c : Char} (hc : isBlank c = false) (s : List Char) :
    trimStart (trimEnd (c :: s)) = trimEnd (c :: s) := by
  have hone : trimEnd [c] = [c] :=
    (trimEnd_eq_self_iff [c]).2 fun d hd => Option.some.inj hd ▸ hc
  have hbegin : trimEnd (c :: s) = c :: trimEnd s := trimEnd_append hone s
  rw [hbegin, trimStart_cons_of_not_blank hc]

/-- It does not matter at which end a text is trimmed first. -/
theorem trimStart_trimEnd (s : List Char) : trimStart (trimEnd s) = trim s := by
  induction s with
  | nil => rfl
  | cons c s ih =>
    cases hc : isBlank c with
    | false =>
      rw [trimStart_trimEnd_of_not_blank hc, trim, trimStart_cons_of_not_blank hc]
    | true =>
      have hblank : ∀ d ∈ [c], isBlank d = true := by simpa using hc
      have hskip : trimStart (c :: s) = trimStart s := trimStart_append_of_blank hblank s
      rw [trim, hskip, ← trim, ← ih]
      by_cases hs : trimEnd s = []
      · have hall : ∀ d ∈ c :: s, isBlank d = true := by
          simpa [hc] using (trimEnd_eq_nil_iff s).1 hs
        rw [hs, (trimEnd_eq_nil_iff (c :: s)).2 hall]
      · have hkeep : trimEnd (c :: s) = c :: trimEnd s := trimEnd_append_of_ne_nil [c] hs
        rw [hkeep]
        exact trimStart_append_of_blank hblank (trimEnd s)

theorem cutAtBlank_append {c : Char} (ha : ∀ d ∈ a, isBlank d = false) (hc : isBlank c = true)
    (b : List Char) : cutAtBlank (a ++ c :: b) = some (a, b) := by
  induction a with
  | nil => simp [cutAtBlank, hc]
  | cons d a ih =>
    rw [List.cons_append, cutAtBlank, ha d List.mem_cons_self,
      ih fun x hx => ha x (List.mem_cons_of_mem _ hx)]
    rfl

end Seam

end CommandShell.Text
