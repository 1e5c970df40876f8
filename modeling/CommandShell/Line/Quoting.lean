import CommandShell.Text.Blank
/-!
# Quotes and escapes

One rule for quotes and backslashes serves every scanner of the library: the word scanner, the
bracket scanner and the item splitter all walk a text with `Mode.advance` and act only on
characters that stand in a `bare` mode.  Because they share the mode, they agree on what is
quoted.  The rule is often written in other ways; they come to the same.

    keeping the mark that is open, and passing over what follows a backslash, is `Mode.advance`
                                                                   (marks_advance)
    to have no mark open and pass over nothing is to be bare       (bare_iff_marks)
    the way in which unquoting reads a character is `Mode.advance` (unquoteFrom_cons)
    double s  and  single s  and  escaped s   are the three ways to write a word so that
    unquote gives s back; `unquote` is the reading side of all three.
    unquote s = s ↔ s holds no quote mark, and no backslash but at its end
                                                                   (unquote_eq_self_iff)
-/

namespace CommandShell.Line

open CommandShell.Text

/-- The quotation a character stands in. -/
inductive Quote where
  | none
  | single
  | double
  deriving DecidableEq

/-- The quotation after the character `c`: a quote mark opens its own kind and closes it. -/
def Quote.step : Quote → Char → Quote
  | .none, '\'' => .single
  | .none, '"' => .double
  | .single, '\'' => .none
  | .double, '"' => .none
  | q, _ => q

/-- Whether a backslash takes the next character literally; inside single quotes it does not. -/
def Quote.escapes : Quote → Bool
  | .single => false
  | _ => true

/-- Where a scanner stands: reading in a quotation, or just behind an escaping backslash. -/
inductive Mode where
  | reading (q : Quote)
  | escaping (q : Quote)
  deriving DecidableEq

/-- The mode at the start of a text. -/
def Mode.start : Mode := .reading .none

/-- The mode after one more character. -/
def Mode.advance : Mode → Char → Mode
  | .escaping q, _ => .reading q
  | .reading q, c => if c = '\\' && q.escapes then .escaping q else .reading (q.step c)

/-- The mode after a whole text. -/
def Mode.advanceAll (m : Mode) (s : List Char) : Mode := s.foldl Mode.advance m

/-- Whether the next character is outside quotes and escapes. -/
def Mode.bare : Mode → Bool
  | .reading .none => true
  | _ => false

/-- Removes quote marks and escaping backslashes, from the mode `m` on.  A backslash at the very
end has nothing to escape and stays. -/
def unquoteFrom : Mode → List Char → List Char
  | .escaping _, [] => ['\\']
  | .reading _, [] => []
  | .escaping q, c :: rest => c :: unquoteFrom (.reading q) rest
  | .reading q, c :: rest =>
    if c = '\\' && q.escapes then unquoteFrom (.escaping q) rest
    else if q.step c = q then c :: unquoteFrom (.reading q) rest
    else unquoteFrom (.reading (q.step c)) rest

/-- The text of a word without its quoting. -/
def unquote (word : List Char) : List Char := unquoteFrom .start word

/-! ## Writing a word -/

/-- Puts a backslash before each backslash and double quote. -/
def protect : List Char → List Char
  | [] => []
  | c :: rest => if c = '\\' ∨ c = '"' then '\\' :: c :: protect rest else c :: protect rest

/-- The word in double quotes. -/
def doubleQuoted (s : List Char) : List Char := '"' :: protect s ++ ['"']

/-- The word in single quotes; it must hold none itself. -/
def singleQuoted (s : List Char) : List Char := '\'' :: s ++ ['\'']

/-- The word with a backslash before every character. -/
def escaped : List Char → List Char
  | [] => []
  | c :: rest => '\\' :: c :: escaped rest

/-- Reading `s` from a bare start gives `x`, whatever stands behind it. -/
def Writes (s x : List Char) : Prop :=
  ∀ t, unquoteFrom .start (s ++ t) = x ++ unquoteFrom .start t

/-! ## Lemmas -/

@[simp] theorem Mode.advanceAll_nil (m : Mode) : m.advanceAll [] = m := rfl

@[simp] theorem Mode.advanceAll_cons (m : Mode) (c : Char) (s : List Char) :
    m.advanceAll (c :: s) = (m.advance c).advanceAll s := rfl

@[simp] theorem Mode.advanceAll_append (m : Mode) (s t : List Char) :
    m.advanceAll (s ++ t) = (m.advanceAll s).advanceAll t := by
  simp [Mode.advanceAll]

/-- Bare is the mode at the start alone. -/
theorem Mode.start_of_bare {mode : Mode} (h : mode.bare = true) : mode = .start := by
  cases mode with
  | escaping q => cases h
  | reading q =>
    cases q with
    | none => rfl
    | single => cases h
    | double => cases h

/-! ### One rule -/

/-- The mark that opened a quotation. -/
def Quote.mark? : Quote → Option Char
  | .none => Option.none
  | .single => some '\''
  | .double => some '"'

/-- The mark that is open, and whether the next character is passed over. -/
def Mode.marks : Mode → Option Char × Bool
  | .reading q => (q.mark?, false)
  | .escaping q => (q.mark?, true)

/-- The step of a scanner that keeps the mark that is open: a backslash has the next character
passed over, but not behind a single mark; the mark that is open closes, and where none is open
either mark opens. -/
def stepMarks : Option Char × Bool → Char → Option Char × Bool
  | (mark, true), _ => (mark, false)
  | (mark, false), c =>
    if c = '\\' ∧ mark ≠ some '\'' then (mark, true)
    else
      match mark with
      | some active => (if c = active then none else some active, false)
      | none => (if c = '\'' ∨ c = '"' then some c else none, false)

/-- **Such a scanner moves on by `Mode.advance`.** -/
theorem marks_advance (m : Mode) (c : Char) : (m.advance c).marks = stepMarks m.marks c := by
  cases m with
  | escaping q => rfl
  | reading q =>
    by_cases hslash : c = '\\'
    · subst hslash
      cases q <;> rfl
    · by_cases hsingle : c = '\''
      · subst hsingle
        cases q <;> rfl
      · by_cases hdouble : c = '"'
        · subst hdouble
          cases q <;> rfl
        · cases q <;> simp [Mode.advance, Mode.marks, Quote.step, Quote.mark?, stepMarks, hslash,
            hsingle, hdouble]

theorem marks_advanceAll (m : Mode) (s : List Char) :
    (m.advanceAll s).marks = s.foldl stepMarks m.marks := by
  induction s generalizing m with
  | nil => rfl
  | cons c s ih => rw [Mode.advanceAll_cons, ih, List.foldl_cons, marks_advance]

/-- It may act on a character if it has no mark open and does not pass over it. -/
theorem bare_iff_marks (m : Mode) : m.bare = true ↔ m.marks = (none, false) := by
  rcases m with q | q <;> cases q <;> decide

/-- What unquoting keeps of a character: all but quote marks that open or close, and backslashes
that escape. -/
def Mode.keeps : Mode → Char → List Char
  | .escaping _, c => [c]
  | .reading q, c => if c = '\\' && q.escapes then [] else if q.step c = q then [c] else []

/-- **Unquoting moves on by `Mode.advance`.** -/
theorem unquoteFrom_cons (m : Mode) (c : Char) (s : List Char) :
    unquoteFrom m (c :: s) = m.keeps c ++ unquoteFrom (m.advance c) s := by
  cases m with
  | escaping q => rfl
  | reading q =>
    rw [unquoteFrom, Mode.keeps, Mode.advance]
    split
    · rfl
    · split
      · next hsame => rw [hsame, List.singleton_append]
      · rfl

/-! ### Reading -/

theorem step_none_eq_none_iff (c : Char) : Quote.none.step c = .none ↔ c ≠ '\'' ∧ c ≠ '"' := by
  unfold Quote.step
  split <;> simp_all

theorem step_double_eq_double {c : Char} (h : ¬ (c = '\\' ∨ c = '"')) :
    Quote.double.step c = .double := by
  unfold Quote.step
  split <;> simp_all

/-- Between double quotes a character that `protect` leaves alone changes nothing. -/
theorem advance_double {c : Char} (h : ¬ (c = '\\' ∨ c = '"')) :
    Mode.advance (.reading .double) c = .reading .double := by
  have hslash : c ≠ '\\' := fun hc => h (Or.inl hc)
  simp only [Mode.advance, hslash, decide_false, Bool.false_and, step_double_eq_double h]
  rfl

theorem unquoteFrom_protect (s t : List Char) :
    unquoteFrom (.reading .double) (protect s ++ t) = s ++ unquoteFrom (.reading .double) t := by
  induction s with
  | nil => rfl
  | cons c s ih =>
    by_cases h : c = '\\' ∨ c = '"'
    · simp [protect, h, unquoteFrom, Quote.escapes, ih]
    · have h1 : c ≠ '\\' := fun e => h (Or.inl e)
      have h2 : c ≠ '"' := fun e => h (Or.inr e)
      simp [protect, unquoteFrom, h1, h2, step_double_eq_double h, ih]

theorem Writes.unquote {s x : List Char} (h : Writes s x) : unquote s = x := by
  have := h []
  simpa [Line.unquote, Mode.start, unquoteFrom] using this

theorem Writes.append {s s' x x' : List Char} (h : Writes s x) (h' : Writes s' x') :
    Writes (s ++ s') (x ++ x') := by
  intro t
  rw [List.append_assoc, h, h', List.append_assoc]

theorem writes_singleton {c : Char} (h1 : c ≠ '\\') (h2 : c ≠ '\'') (h3 : c ≠ '"') :
    Writes [c] [c] := by
  intro t
  have hstep := (step_none_eq_none_iff c).2 ⟨h2, h3⟩
  simp [Mode.start, unquoteFrom, h1, hstep]

theorem writes_doubleQuoted (s : List Char) : Writes (doubleQuoted s) s := by
  intro t
  have := unquoteFrom_protect s ('"' :: t)
  simpa [doubleQuoted, Mode.start, unquoteFrom, Quote.step, Quote.escapes] using this

theorem writes_escaped (s : List Char) : Writes (escaped s) s := by
  intro t
  induction s with
  | nil => rfl
  | cons c s ih =>
    unfold Mode.start at ih ⊢
    simp [escaped, unquoteFrom, Quote.escapes, ih]

theorem unquote_doubleQuoted (s : List Char) : unquote (doubleQuoted s) = s :=
  (writes_doubleQuoted s).unquote

theorem unquote_escaped (s : List Char) : unquote (escaped s) = s := (writes_escaped s).unquote

/-- Unquoting makes no text longer; a pending backslash may stay as one character. -/
theorem length_unquoteFrom_le (m : Mode) (s : List Char) :
    (unquoteFrom m s).length ≤ s.length + (match m with | .escaping _ => 1 | .reading _ => 0) := by
  induction s generalizing m with
  | nil => cases m <;> simp [unquoteFrom]
  | cons c s ih =>
    cases m with
    | escaping q =>
      have := ih (.reading q)
      simp only [unquoteFrom, List.length_cons] at this ⊢
      omega
    | reading q =>
      rw [unquoteFrom]
      split
      · have := ih (.escaping q)
        simp only [List.length_cons] at this ⊢
        omega
      · split
        · have := ih (.reading q)
          simp only [List.length_cons] at this ⊢
          omega
        · have := ih (.reading (q.step c))
          simp only [List.length_cons] at this ⊢
          omega

theorem length_unquote_le (s : List Char) : (unquote s).length ≤ s.length :=
  length_unquoteFrom_le .start s

/-- A text is its own reading if it holds no quote mark, and no backslash but at its end. -/
theorem unquote_eq_self_iff (s : List Char) :
    unquote s = s ↔ (∀ c ∈ s, c ≠ '\'' ∧ c ≠ '"') ∧ ∀ c ∈ s.dropLast, c ≠ '\\' := by
  unfold unquote Mode.start
  induction s with
  | nil => simp [unquoteFrom]
  | cons c s ih =>
    rw [unquoteFrom]
    by_cases hb : c = '\\'
    · subst hb
      cases s with
      | nil => simp [Quote.escapes, unquoteFrom]
      | cons d s =>
        -- the backslash is dropped, so the reading is shorter than the text
        have hlen := length_unquoteFrom_le (.reading .none) s
        have hne : unquoteFrom (.escaping .none) (d :: s) ≠ '\\' :: d :: s := by
          intro h
          have := congrArg List.length h
          simp only [unquoteFrom, List.length_cons] at this hlen
          omega
        simp [Quote.escapes, hne]
    · simp only [hb, decide_false, Bool.false_and, Bool.false_eq_true, if_false]
      by_cases hq : Quote.none.step c = .none
      · have hc := (step_none_eq_none_iff c).1 hq
        rw [if_pos hq, List.cons.injEq]
        cases s with
        | nil => simp [unquoteFrom, hc]
        | cons d s => simp [ih, hb, hc]
      · have hlen := length_unquoteFrom_le (.reading (Quote.none.step c)) s
        have hne : unquoteFrom (.reading (Quote.none.step c)) s ≠ c :: s := by
          intro h
          have := congrArg List.length h
          simp only [List.length_cons] at this hlen
          omega
        have hc : ¬ (c ≠ '\'' ∧ c ≠ '"') := fun h => hq ((step_none_eq_none_iff c).2 h)
        rw [if_neg hq]
        simp only [hne, List.mem_cons, forall_eq_or_imp, hc, false_and]

end CommandShell.Line
