import CommandShell.Literal.Bracket
import CommandShell.Proofs.Line.Quoted
/-!
# Where the bracketed spans of a line are

Outside all brackets and quotes the bracket scanner is where it was at the start.  So a line either
has no span, or it is a text, a bracketed literal and a shorter line, and the spans behind the
literal are those of that line.  A text whose brackets are all quoted or escaped is `Flat`: the
scanner walks through it and finds nothing.

    spans of flat s ++ t = those of t, further on                  (spansFrom_flat)
    a line has no span, or is before ++ literal ++ rest            (spansFrom_cases)
-/

namespace CommandShell.Literal

open CommandShell.Text CommandShell.Line

/-- Whether the character is a bracket of any kind. -/
def isBracket (c : Char) : Bool := (Bracket.ofOpening? c).isSome || isClosing c

/-- No bracket of the text is bare. -/
def Flat (mode : Mode) (s : List Char) : Prop := NoneBare isBracket mode s

instance (mode : Mode) (s : List Char) : Decidable (Flat mode s) :=
  inferInstanceAs (Decidable (NoneBare isBracket mode s))

/-- The open span with a whole text more. -/
def OpenSpan.pushAll (s : List Char) (o : OpenSpan) : OpenSpan :=
  { o with chars := s.reverse ++ o.chars }

/-- What the scanner knows behind a flat text. -/
def Nesting.pushAll (n : Nesting) (s : List Char) : Nesting :=
  ⟨n.depth, n.outermost.map (OpenSpan.pushAll s)⟩

/-! ## One step of the scanner -/

theorem bare_start : Mode.start.bare = true := rfl

theorem isBracket_opening (b : Bracket) : Bracket.ofOpening? b.opening = some b := by
  cases b <;> rfl

theorem opening_of_ofOpening {c : Char} {b : Bracket} (h : Bracket.ofOpening? c = some b) :
    c = b.opening := by
  unfold Bracket.ofOpening? at h
  split at h <;> cases h <;> rfl

theorem isClosing_closing (b : Bracket) :
    Bracket.ofOpening? b.closing = none ∧ isClosing b.closing = true := by
  cases b <;> decide

theorem closing_of_isClosing {c : Char} (h : isClosing c = true) : ∃ b, c = Bracket.closing b := by
  simp only [isClosing, Bool.or_eq_true, decide_eq_true_eq] at h
  rcases h with (h | h) | h
  · exact ⟨.square, h⟩
  · exact ⟨.round, h⟩
  · exact ⟨.curly, h⟩

theorem advance_opening (b : Bracket) : Mode.start.advance b.opening = .start := by
  cases b <;> rfl

theorem advance_closing (b : Bracket) : Mode.start.advance b.closing = .start := by
  cases b <;> rfl

/-- A character that is no bare bracket only adds to the open span. -/
theorem spansFrom_cons_flat {mode : Mode} {c : Char} (h : ¬ (mode.bare = true ∧ isBracket c = true))
    (pos : Nat) (n : Nesting) (s : List Char) :
    spansFrom mode pos n (c :: s) =
      spansFrom (mode.advance c) (pos + c.utf8Size)
        ⟨n.depth, n.outermost.map (OpenSpan.push c)⟩ s := by
  rw [spansFrom]
  by_cases hbare : mode.bare = true
  · have hc : isBracket c = false := by simpa [hbare] using h
    simp only [isBracket, Bool.or_eq_false_iff, Option.isSome_eq_false_iff,
      Option.isNone_iff_eq_none] at hc
    simp [hbare, Nesting.read, hc]
  · rw [if_neg hbare]

/-- Outside all brackets a closing one is of no matter. -/
theorem spansFrom_stray (b : Bracket) (pos : Nat) (s : List Char) :
    spansFrom .start pos ⟨0, none⟩ (b.closing :: s) =
      spansFrom .start (pos + b.closing.utf8Size) ⟨0, none⟩ s := by
  rw [spansFrom, if_pos bare_start, advance_closing]
  simp [Nesting.read, isClosing_closing]

theorem spansFrom_opening (b : Bracket) (pos : Nat) (s : List Char) :
    spansFrom .start pos ⟨0, none⟩ (b.opening :: s) =
      spansFrom .start (pos + b.opening.utf8Size) ⟨1, some ⟨b, pos, []⟩⟩ s := by
  rw [spansFrom, if_pos bare_start, advance_opening]
  simp [Nesting.read, isBracket_opening]

theorem spansFrom_closing (b : Bracket) (pos : Nat) (o : OpenSpan) (s : List Char) :
    spansFrom .start pos ⟨1, some o⟩ (b.closing :: s) =
      (o.close b.closing pos).toList ++
        spansFrom .start (pos + b.closing.utf8Size) ⟨0, none⟩ s := by
  rw [spansFrom, if_pos bare_start, advance_closing]
  simp [Nesting.read, isClosing_closing]

/-- Inside brackets every character goes into the open span, but for the one that closes it. -/
theorem spansFrom_cons_inside (mode : Mode) (pos depth : Nat) (o : OpenSpan) (c : Char)
    (s : List Char) :
    (mode = .start ∧ depth = 0 ∧ isClosing c = true) ∨
      ∃ depth', spansFrom mode pos ⟨depth + 1, some o⟩ (c :: s) =
        spansFrom (mode.advance c) (pos + c.utf8Size) ⟨depth' + 1, some (o.push c)⟩ s := by
  by_cases hflat : mode.bare = true ∧ isBracket c = true
  · obtain ⟨hbare, hc⟩ := hflat
    obtain rfl := Mode.start_of_bare hbare
    rw [isBracket, Bool.or_eq_true] at hc
    cases hopen : Bracket.ofOpening? c with
    | some b =>
      refine Or.inr ⟨depth + 1, ?_⟩
      rw [spansFrom, if_pos hbare]
      simp [Nesting.read, hopen]
    | none =>
      have hclose : isClosing c = true := by simpa [hopen] using hc
      cases depth with
      | zero => exact Or.inl ⟨rfl, rfl, hclose⟩
      | succ depth =>
        refine Or.inr ⟨depth, ?_⟩
        rw [spansFrom, if_pos hbare]
        simp [Nesting.read, hopen, hclose]
  · exact Or.inr ⟨depth, spansFrom_cons_flat hflat pos _ s⟩

/-! ## Flat texts -/

theorem spansFrom_flat {mode : Mode} {s : List Char} (h : Flat mode s) (pos : Nat) (n : Nesting)
    (t : List Char) :
    spansFrom mode pos n (s ++ t) =
      spansFrom (mode.advanceAll s) (pos + byteLength s) (n.pushAll s) t := by
  induction s generalizing mode pos n with
  | nil =>
    have hn : n.pushAll [] = n := by
      obtain ⟨depth, outermost⟩ := n
      cases outermost <;> rfl
    rw [hn]
    rfl
  | cons c s ih =>
    have hn : Nesting.pushAll ⟨n.depth, n.outermost.map (OpenSpan.push c)⟩ s =
        n.pushAll (c :: s) := by
      obtain ⟨depth, outermost⟩ := n
      cases outermost with
      | none => rfl
      | some o => simp [Nesting.pushAll, OpenSpan.pushAll, OpenSpan.push]
    rw [List.cons_append, spansFrom_cons_flat h.1, ih h.2, hn, byteLength, Nat.add_assoc,
      Mode.advanceAll_cons]

theorem Flat.append {s t : List Char} (hs : Flat .start s)
    (hmode : Mode.start.advanceAll s = .start) (ht : Flat .start t) : Flat .start (s ++ t) :=
  noneBare_append.2 ⟨hs, by rw [hmode]; exact ht⟩

/-! ## The first span -/

/-- A literal with its brackets. -/
def enclosed (b : Bracket) (inner : List Char) : List Char := b.opening :: (inner ++ [b.closing])

/-- A span that is open is never closed, or by the first closing bracket that stands as deep as
its opening one. -/
theorem spansFrom_inside (mode : Mode) (pos depth : Nat) (o : OpenSpan) (s : List Char) :
    spansFrom mode pos ⟨depth + 1, some o⟩ s = [] ∨
      ∃ inner b rest, s = inner ++ Bracket.closing b :: rest ∧ mode.advanceAll inner = .start ∧
        spansFrom mode pos ⟨depth + 1, some o⟩ s =
          ((o.pushAll inner).close b.closing (pos + byteLength inner)).toList ++
            spansFrom .start (pos + byteLength (inner ++ [b.closing])) ⟨0, none⟩ rest := by
  induction s generalizing mode pos depth o with
  | nil => exact Or.inl rfl
  | cons c s ih =>
    rcases spansFrom_cons_inside mode pos depth o c s with ⟨rfl, rfl, hc⟩ | ⟨depth', hstep⟩
    · obtain ⟨b, rfl⟩ := closing_of_isClosing hc
      refine Or.inr ⟨[], b, s, rfl, rfl, ?_⟩
      rw [spansFrom_closing]
      rfl
    · rw [hstep]
      rcases ih (mode.advance c) (pos + c.utf8Size) depth' (o.push c) with
        hnone | ⟨inner, b, rest, rfl, hmode, hspans⟩
      · exact Or.inl hnone
      · refine Or.inr ⟨c :: inner, b, rest, rfl, hmode, ?_⟩
        rw [hspans]
        simp [OpenSpan.pushAll, OpenSpan.push, byteLength, Nat.add_assoc]

/-- There is no span, or a text, the first span and a line with the other spans. -/
def SpanFirst (mode : Mode) (pos : Nat) (s : List Char) : Prop :=
  spansFrom mode pos ⟨0, none⟩ s = [] ∨
    ∃ before b inner rest, s = before ++ enclosed b inner ++ rest ∧
      mode.advanceAll before = .start ∧ Mode.start.advanceAll inner = .start ∧
      spansFrom mode pos ⟨0, none⟩ s =
        ⟨b, pos + byteLength before, pos + byteLength (before ++ enclosed b inner), inner⟩ ::
          spansFrom .start (pos + byteLength (before ++ enclosed b inner)) ⟨0, none⟩ rest

/-- A text that the scanner walks through without a span only lengthens what stands before. -/
theorem SpanFirst.prepend {mode : Mode} {pos : Nat} {a s : List Char}
    (h : SpanFirst (mode.advanceAll a) (pos + byteLength a) s)
    (hspans : spansFrom mode pos ⟨0, none⟩ (a ++ s) =
      spansFrom (mode.advanceAll a) (pos + byteLength a) ⟨0, none⟩ s) :
    SpanFirst mode pos (a ++ s) := by
  rcases h with hnone | ⟨before, b, inner, rest, rfl, hmode, hinner, hfirst⟩
  · exact Or.inl (hspans.trans hnone)
  · refine Or.inr ⟨a ++ before, b, inner, rest, by simp, ?_, hinner, ?_⟩
    · rw [Mode.advanceAll_append, hmode]
    · rw [hspans, hfirst]
      simp [Nat.add_assoc]

/-- **A line has no span, or is a text, the first span and a line with the other spans.** -/
theorem spansFrom_cases (mode : Mode) (pos : Nat) (s : List Char) : SpanFirst mode pos s := by
  induction hn : s.length using Nat.strongRecOn generalizing mode pos s with
  | ind n ih =>
    cases s with
    | nil => exact Or.inl rfl
    | cons c s =>
      have hlen : s.length < n := by rw [← hn]; simp
      have hnext := ih s.length hlen (mode.advance c) (pos + c.utf8Size) s rfl
      by_cases hflat : mode.bare = true ∧ isBracket c = true
      · obtain ⟨hbare, hc⟩ := hflat
        obtain rfl := Mode.start_of_bare hbare
        cases hopen : Bracket.ofOpening? c with
        | none =>
          obtain ⟨b, rfl⟩ := closing_of_isClosing (by simpa [isBracket, hopen] using hc)
          refine SpanFirst.prepend (a := [b.closing]) hnext ?_
          exact (spansFrom_stray b pos s).trans (by rw [Mode.advanceAll_cons, advance_closing]; rfl)
        | some b =>
          obtain rfl := opening_of_ofOpening hopen
          rcases spansFrom_inside .start (pos + b.opening.utf8Size) 0 ⟨b, pos, []⟩ s with
            hnone | ⟨inner, b', rest, rfl, hmode, hspans⟩
          · exact Or.inl ((spansFrom_opening b pos s).trans hnone)
          · rw [← spansFrom_opening] at hspans
            have hopened : Mode.start.advanceAll (b.opening :: inner) = .start := by
              rw [Mode.advanceAll_cons, advance_opening, hmode]
            by_cases hb : b'.closing = b.closing
            · refine Or.inr ⟨[], b, inner, rest, by simp [enclosed, hb], rfl, hmode, ?_⟩
              rw [hspans]
              simp [OpenSpan.close, OpenSpan.pushAll, enclosed, byteLength, hb, Nat.add_assoc]
            · -- the brackets differ in kind, so nothing was found up to here
              have hrest := ih rest.length (by simp at hlen; omega) .start
                (pos + byteLength (b.opening :: (inner ++ [b'.closing]))) rest rfl
              have hline : b.opening :: (inner ++ b'.closing :: rest) =
                  b.opening :: (inner ++ [b'.closing]) ++ rest := by simp
              have hmode' : Mode.start.advanceAll (b.opening :: (inner ++ [b'.closing])) =
                  .start := by
                rw [← List.cons_append, Mode.advanceAll_append, hopened, Mode.advanceAll_cons,
                  advance_closing, Mode.advanceAll_nil]
              rw [hline] at hspans ⊢
              refine SpanFirst.prepend (by rw [hmode']; exact hrest) ?_
              rw [hspans, hmode']
              simp [OpenSpan.close, OpenSpan.pushAll, hb, byteLength, Nat.add_assoc]
      · refine SpanFirst.prepend (a := [c]) hnext ?_
        exact spansFrom_cons_flat hflat pos _ s

end CommandShell.Literal
