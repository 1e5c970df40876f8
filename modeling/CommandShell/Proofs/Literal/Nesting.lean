import CommandShell.Proofs.Literal.Spans
import CommandShell.Proofs.Literal.Splitting
/-!
# Brackets inside brackets

Inside an open bracket the scanner counts: an opening bracket of any kind goes one level down, a
closing one of any kind one level up, and the span ends where the count is back.  So what may stand
inside a literal is a text that is `Paired`: it closes what it opens, and nothing else.  A text
whose brackets nest properly, each closed by its own kind, is paired, at any depth and with quotes
and escapes around brackets that do not count.

    Gap s                  no bracket of s is bare, and its quotes and escapes end in it
    Nested s               s is gaps and literals in turn, and literals are nested inside
    Paired s               no bracket of s closes one that s did not open, and all are closed
    nested texts are paired                                        (Nested.paired)
    the scanner counts as the splitter does                        (spansFrom_of_noStray)
    before ++ literal ++ rest has that span first                  (spansFrom_paired)
-/

namespace CommandShell.Literal

open CommandShell.Text CommandShell.Line

/-- A text that the bracket scanner walks through, and comes out as it went in. -/
structure Gap (s : List Char) : Prop where
  flat : Flat .start s
  closed : Mode.start.advanceAll s = .start

instance (s : List Char) : Decidable (Gap s) :=
  decidable_of_iff (Flat .start s ∧ Mode.start.advanceAll s = .start)
    ⟨fun h => ⟨h.1, h.2⟩, fun h => ⟨h.flat, h.closed⟩⟩

/-- Gaps and bracketed literals in turn; between its brackets a literal is nested itself. -/
inductive Nested : List Char → Prop
  | gap {s : List Char} (h : Gap s) : Nested s
  | literal {before inner rest : List Char} (b : Bracket) (hbefore : Gap before)
      (hinner : Nested inner) (hrest : Nested rest) :
      Nested (before ++ enclosed b inner ++ rest)

/-- No bare closing bracket stands outside all brackets, when the text is read from the place
on. -/
def NoStray : Place → List Char → Prop
  | _, [] => True
  | p, c :: s => ¬ (p = .start ∧ isClosing c = true) ∧ NoStray (p.advance c) s

instance NoStray.decide : (p : Place) → (s : List Char) → Decidable (NoStray p s)
  | _, [] => isTrue trivial
  | p, c :: s =>
    have := NoStray.decide (p.advance c) s
    inferInstanceAs (Decidable (_ ∧ _))

/-- The text closes every bracket that it opens, and no other. -/
def Paired (s : List Char) : Prop := NoStray .start s ∧ Balanced s

instance (s : List Char) : Decidable (Paired s) := inferInstanceAs (Decidable (_ ∧ _))

variable {p : Place} {mode : Mode} {s t before inner : List Char} {c : Char}

/-! ## The place behind a nested text -/

theorem noStray_append : NoStray p (s ++ t) ↔ NoStray p s ∧ NoStray (p.advanceAll s) t := by
  induction s generalizing p with
  | nil => simp [NoStray]
  | cons c s ih => simp only [List.cons_append, NoStray, ih, Place.advanceAll_cons, and_assoc]

theorem place_advance_flat (h : ¬ (mode.bare = true ∧ isBracket c = true)) (depth : Nat) :
    Place.advance ⟨mode, depth⟩ c = ⟨mode.advance c, depth⟩ := by
  unfold Place.advance
  by_cases hbare : mode.bare = true
  · have hc : isBracket c = false := by simpa [hbare] using h
    simp only [isBracket, Bool.or_eq_false_iff] at hc
    simp [hc]
  · simp [hbare]

/-- A text without bare brackets stays as deep as it is. -/
theorem place_flat (h : Flat mode s) (depth : Nat) :
    NoStray ⟨mode, depth⟩ s ∧ Place.advanceAll ⟨mode, depth⟩ s = ⟨mode.advanceAll s, depth⟩ := by
  induction s generalizing mode with
  | nil => exact ⟨trivial, rfl⟩
  | cons c s ih =>
    obtain ⟨hc, hs⟩ := h
    rw [NoStray, Place.advanceAll_cons, place_advance_flat hc]
    refine ⟨⟨?_, (ih hs).1⟩, (ih hs).2⟩
    rintro ⟨hstart, hclosing⟩
    have hmode : mode = .start := congrArg Place.mode hstart
    exact hc ⟨by rw [hmode]; rfl, by rw [isBracket, hclosing, Bool.or_true]⟩

theorem place_opening (b : Bracket) (depth : Nat) :
    Place.advance ⟨.start, depth⟩ b.opening = ⟨.start, depth + 1⟩ := by
  cases b <;> rfl

theorem place_closing (b : Bracket) (depth : Nat) :
    Place.advance ⟨.start, depth + 1⟩ b.closing = ⟨.start, depth⟩ := by
  cases b <;> rfl

theorem isClosing_opening (b : Bracket) : isClosing b.opening = false := by
  cases b <;> rfl

/-- A nested text, at whatever depth it stands, closes what it opens. -/
theorem Nested.place (h : Nested s) (depth : Nat) :
    NoStray ⟨.start, depth⟩ s ∧ Place.advanceAll ⟨.start, depth⟩ s = ⟨.start, depth⟩ := by
  induction h generalizing depth with
  | gap h =>
    obtain ⟨hstray, hplace⟩ := place_flat h.flat depth
    exact ⟨hstray, by rw [hplace, h.closed]⟩
  | @literal before inner rest b hbefore _ _ ihinner ihrest =>
    obtain ⟨hstray, hplace⟩ := place_flat hbefore.flat depth
    obtain ⟨hstray₁, hplace₁⟩ := ihinner (depth + 1)
    obtain ⟨hstray₂, hplace₂⟩ := ihrest depth
    rw [hbefore.closed] at hplace
    have hdeep : (⟨.start, depth + 1⟩ : Place) ≠ .start := by
      intro heq
      exact Nat.succ_ne_zero depth (congrArg Place.depth heq)
    have hline : before ++ enclosed b inner ++ rest =
        before ++ b.opening :: (inner ++ b.closing :: rest) := by simp [enclosed]
    rw [hline]
    constructor
    · rw [noStray_append, hplace, NoStray, place_opening, noStray_append, hplace₁, NoStray,
        place_closing]
      refine ⟨hstray, ?_, hstray₁, fun hc => hdeep hc.1, hstray₂⟩
      rw [isClosing_opening]
      exact fun hc => Bool.false_ne_true hc.2
    · rw [Place.advanceAll_append, hplace, Place.advanceAll_cons, place_opening,
        Place.advanceAll_append, hplace₁, Place.advanceAll_cons, place_closing, hplace₂]

theorem Nested.paired (h : Nested s) : Paired s := h.place 0

theorem Gap.paired (h : Gap s) : Paired s := (Nested.gap h).paired

/-! ## The scanner inside a bracket -/

/-- One level down, the scanner stands where the splitter stands, until a bracket closes that was
not opened there. -/
theorem spansFrom_cons_noStray (h : ¬ (p = .start ∧ isClosing c = true)) (pos : Nat)
    (o : OpenSpan) (s : List Char) :
    spansFrom p.mode pos ⟨p.depth + 1, some o⟩ (c :: s) =
      spansFrom (p.advance c).mode (pos + c.utf8Size) ⟨(p.advance c).depth + 1, some (o.push c)⟩
        s := by
  obtain ⟨mode, depth⟩ := p
  by_cases hflat : mode.bare = true ∧ isBracket c = true
  · obtain ⟨hbare, hc⟩ := hflat
    have hmode : (Place.advance ⟨mode, depth⟩ c).mode = mode.advance c := rfl
    rw [hmode, spansFrom, if_pos hbare]
    cases hopen : Bracket.ofOpening? c with
    | some b => simp [Nesting.read, hopen, Place.advance, hbare]
    | none =>
      have hclosing : isClosing c = true := by simpa [isBracket, hopen] using hc
      have hdeep : depth ≠ 0 := by
        intro hdepth
        exact h ⟨(Place.eq_start_iff _).2 ⟨hbare, hdepth⟩, hclosing⟩
      have hup : depth + 1 - 1 = depth - 1 + 1 := by omega
      simp [Nesting.read, hopen, hclosing, hdeep, hup, Place.advance, hbare]
  · rw [place_advance_flat hflat]
    exact spansFrom_cons_flat hflat pos _ s

theorem spansFrom_of_noStray (h : NoStray p s) (pos : Nat) (o : OpenSpan) (t : List Char) :
    spansFrom p.mode pos ⟨p.depth + 1, some o⟩ (s ++ t) =
      spansFrom (p.advanceAll s).mode (pos + byteLength s)
        ⟨(p.advanceAll s).depth + 1, some (o.pushAll s)⟩ t := by
  induction s generalizing p pos o with
  | nil => rfl
  | cons c s ih =>
    have ho : (o.push c).pushAll s = o.pushAll (c :: s) := by
      simp [OpenSpan.pushAll, OpenSpan.push]
    rw [List.cons_append, spansFrom_cons_noStray h.1, ih h.2, ho, byteLength, Nat.add_assoc,
      Place.advanceAll_cons]

/-- Behind a paired text the bracket that is open is closed. -/
theorem spansFrom_behind_paired (h : Paired s) (b : Bracket) (pos : Nat) (o : OpenSpan)
    (t : List Char) :
    spansFrom .start pos ⟨1, some o⟩ (s ++ b.closing :: t) =
      ((o.pushAll s).close b.closing (pos + byteLength s)).toList ++
        spansFrom .start (pos + byteLength s + b.closing.utf8Size) ⟨0, none⟩ t := by
  have hinside := spansFrom_of_noStray h.1 pos o (b.closing :: t)
  have hback : Place.start.advanceAll s = .start := h.2
  rw [hback] at hinside
  exact hinside.trans (spansFrom_closing b (pos + byteLength s) (o.pushAll s) t)

/-- A literal behind a gap is the first span of its line. -/
theorem spansFrom_paired (hbefore : Gap before) (hinner : Paired inner) (b : Bracket) (pos : Nat)
    (rest : List Char) :
    spansFrom .start pos ⟨0, none⟩ (before ++ enclosed b inner ++ rest) =
      ⟨b, pos + byteLength before, pos + byteLength (before ++ enclosed b inner), inner⟩ ::
        spansFrom .start (pos + byteLength (before ++ enclosed b inner)) ⟨0, none⟩ rest := by
  have hline : before ++ enclosed b inner ++ rest =
      before ++ b.opening :: (inner ++ b.closing :: rest) := by simp [enclosed]
  have hstop : pos + byteLength (before ++ enclosed b inner) =
      pos + byteLength before + b.opening.utf8Size + byteLength inner + b.closing.utf8Size := by
    simp [enclosed, byteLength]
    omega
  rw [hline, spansFrom_flat hbefore.flat, hbefore.closed]
  show spansFrom .start _ ⟨0, none⟩ _ = _
  rw [spansFrom_opening, spansFrom_behind_paired hinner, hstop]
  simp [OpenSpan.close, OpenSpan.pushAll]

/-- If a bracket closes one that the text did not open, what stands before the first such bracket
is paired. -/
theorem noStray_or_split (p : Place) (s : List Char) :
    NoStray p s ∨ ∃ a b z, s = a ++ Bracket.closing b :: z ∧ NoStray p a ∧
      p.advanceAll a = .start := by
  induction s generalizing p with
  | nil => exact Or.inl trivial
  | cons c s ih =>
    by_cases hc : p = .start ∧ isClosing c = true
    · obtain ⟨rfl, hclosing⟩ := hc
      obtain ⟨b, rfl⟩ := closing_of_isClosing hclosing
      exact Or.inr ⟨[], b, s, rfl, trivial, rfl⟩
    · rcases ih (p.advance c) with hs | ⟨a, b, z, rfl, ha, hplace⟩
      · exact Or.inl ⟨hc, hs⟩
      · exact Or.inr ⟨c :: a, b, z, rfl, ⟨hc, ha⟩, hplace⟩

end CommandShell.Literal
