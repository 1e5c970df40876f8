import CommandShell.Proofs.Literal.RoundTrip
import CommandShell.Proofs.Parse.Stretches
/-!
# Lines of quoted words and flagged literals

A piece of a line is a word in double quotes, or a flag in double quotes with a literal of quoted
items behind it.  Quotes hide whatever brackets the words and items hold, so the spans of a line of
pieces are its literals, each behind its own flag, and the words are those of the other pieces.

    Leads pre       pre is flat and ends between two words, so a line may go on behind it
    the stretches of a line of pieces are its literals, and the words left are those of the other
    pieces                                                             (stretches_pieces)
-/

namespace CommandShell

open CommandShell.Text CommandShell.Line CommandShell.Literal

/-- A word, or a long flag with the items of a literal behind it. -/
inductive Piece where
  | word (w : List Char)
  | literal (name : List Char) (items : List (List Char))

namespace Piece

/-- The items in quotes with commas between them. -/
def inner (items : List (List Char)) : List Char := [','].intercalate (items.map doubleQuoted)

/-- The flag of a literal as it stands in the line. -/
def flag (name : List Char) : List Char := doubleQuoted ('-' :: '-' :: name)

def text : Piece → List Char
  | word w => doubleQuoted w
  | literal name items => flag name ++ ' ' :: enclosed .square (inner items)

/-- The word that is read as a word of the line. -/
def word? : Piece → Option (List Char)
  | word w => some w
  | literal _ _ => none

/-- The literal, and the flag before it. -/
def literal? : Piece → Option (Option (List Char) × Collection)
  | word _ => none
  | literal name items => some (some (flag name), ⟨.square, items.map String.ofList⟩)

/-- The pieces with a blank between two of them. -/
def joined (pieces : List Piece) : List Char := [' '].intercalate (pieces.map text)

end Piece

/-- A text behind which a line goes on as if it began there. -/
structure Leads (pre : List Char) : Prop where
  flat : Flat .start pre
  bare : Mode.start.advanceAll pre = .start
  ends : pre = [] ∨ ∃ s c, pre = s ++ [c] ∧ isBlank c = true ∧ Mode.start.advanceAll s = .start

/-! ## Going on behind a text -/

theorem leads_nil : Leads [] := ⟨trivial, rfl, Or.inl rfl⟩

theorem flat_blank : Flat .start [' '] := ⟨fun h => Bool.false_ne_true h.2, trivial⟩

theorem leads_blank : Leads [' '] := ⟨flat_blank, rfl, Or.inr ⟨[], ' ', rfl, rfl, rfl⟩⟩

theorem flat_doubleQuoted (w : List Char) :
    Flat .start (doubleQuoted w) ∧ Mode.start.advanceAll (doubleQuoted w) = .start :=
  noneBare_doubleQuoted rfl w

namespace Leads

variable {pre : List Char} (h : Leads pre)

include h

theorem word (w : List Char) : Leads (pre ++ doubleQuoted w ++ [' ']) := by
  obtain ⟨hflat, hbare⟩ := flat_doubleQuoted w
  have hmode : Mode.start.advanceAll (pre ++ doubleQuoted w) = .start := by
    rw [Mode.advanceAll_append, h.bare, hbare]
  refine ⟨?_, ?_, Or.inr ⟨_, ' ', rfl, rfl, hmode⟩⟩
  · exact (h.flat.append h.bare hflat).append hmode flat_blank
  · rw [Mode.advanceAll_append, hmode]
    rfl

theorem tokens (t : List Char) :
    tokenize (pre ++ t) = tokenize pre ++ tokensFrom .start (byteLength pre) none t := by
  rcases h.ends with rfl | ⟨s, c, rfl, hc, hs⟩
  · rfl
  · have hpre : tokenize (s ++ [c]) = tokensFrom .start 0 none s := by
      rw [tokenize, tokensFrom_append hs hc, tokensFrom_nil]
      simp
    rw [hpre, List.append_assoc, List.singleton_append, tokenize, tokensFrom_append hs hc,
      Nat.zero_add]

theorem tokens_word (w : List Char) :
    tokenize (pre ++ doubleQuoted w) =
      tokenize pre ++ [⟨doubleQuoted w, byteLength pre, byteLength (pre ++ doubleQuoted w)⟩] := by
  have hone := tokensFrom_doubleQuoted (byteLength pre) w []
  rw [List.append_nil] at hone
  rw [h.tokens, hone, byteLength_append]
  simp [tokensFrom, OpenWord.close]

theorem tokens_word_blank (w : List Char) :
    tokenize (pre ++ doubleQuoted w ++ [' ']) = tokenize (pre ++ doubleQuoted w) := by
  have hmode : Mode.start.advanceAll (pre ++ doubleQuoted w) = .start := by
    rw [Mode.advanceAll_append, h.bare, (flat_doubleQuoted w).2]
  rw [tokenize, tokensFrom_append hmode rfl, tokensFrom_nil]
  simp [tokenize]

theorem words_word (w : List Char) : words (pre ++ doubleQuoted w) = words pre ++ [w] := by
  rw [words, h.tokens_word, List.map_append, List.map_singleton, unquote_doubleQuoted]
  rfl

end Leads

/-! ## Items in brackets -/

theorem trim_doubleQuoted (w : List Char) : trim (doubleQuoted w) = doubleQuoted w :=
  trim_cons_append (by decide) (by decide) _

theorem literal_inner (items : List (List Char)) :
    Collection.ofInner .square (Piece.inner items) = ⟨.square, items.map String.ofList⟩ := by
  have hitems : Literal.items (Piece.inner items) = items := by
    rw [Piece.inner, items_intercalate, List.map_map]
    · exact (List.map_congr_left fun w _ => unquote_doubleQuoted w).trans (List.map_id' items)
    · intro p hp
      obtain ⟨w, -, rfl⟩ := List.mem_map.1 hp
      exact ⟨(inert_doubleQuoted isMark_comma w).closed, trim_doubleQuoted w,
        by simp [doubleQuoted]⟩
  rw [Collection.ofInner, hitems]

theorem flat_inner (items : List (List Char)) :
    Flat .start (Piece.inner items) ∧ Mode.start.advanceAll (Piece.inner items) = .start := by
  induction items with
  | nil => exact ⟨trivial, rfl⟩
  | cons w items ih =>
    obtain ⟨hflat, hmode⟩ := flat_doubleQuoted w
    cases items with
    | nil =>
      rw [Piece.inner, List.map_singleton, List.intercalate_singleton]
      exact ⟨hflat, hmode⟩
    | cons v items =>
      have hinner : Piece.inner (w :: v :: items) =
          doubleQuoted w ++ ',' :: Piece.inner (v :: items) := by
        simp [Piece.inner, List.intercalate_cons_cons]
      have hcomma : Mode.start.advance ',' = .start := rfl
      rw [hinner, Mode.advanceAll_append, hmode, Mode.advanceAll_cons, hcomma]
      refine ⟨noneBare_append.2 ⟨hflat, ?_⟩, ih.2⟩
      rw [hmode]
      exact ⟨fun h => Bool.false_ne_true h.2, hcomma ▸ ih.1⟩

/-! ## The stretches of a line of pieces -/

/-- The stretches have these flags and literals, and these words are left but for the flags. -/
def ReadAs (parts : List Stretch × List Char) (literals : List (Option (List Char) × Collection))
    (ws : List (List Char)) : Prop :=
  parts.1.map (fun st => (st.flag?, st.literal)) = literals ∧
    parts.1.flatMap (fun st => (words st.before).dropLast) ++ words parts.2 = ws

theorem ReadAs.cons {parts : List Stretch × List Char}
    {literals : List (Option (List Char) × Collection)} {ws : List (List Char)}
    (h : ReadAs parts literals ws) (st : Stretch) :
    ReadAs (st :: parts.1, parts.2) ((st.flag?, st.literal) :: literals)
      ((words st.before).dropLast ++ ws) := by
  refine ⟨by rw [List.map_cons, h.1], ?_⟩
  rw [List.flatMap_cons, List.append_assoc, h.2]

/-- The stretch of a literal behind a text that leads to it. -/
def Piece.stretch (pre name : List Char) (items : List (List Char)) : Stretch :=
  ⟨pre ++ flag name ++ [' '], .square, inner items⟩

theorem flag?_stretch {pre : List Char} (h : Leads pre) (name : List Char)
    (items : List (List Char)) :
    (Piece.stretch pre name items).flag? = some (Piece.flag name) ∧
      (words (Piece.stretch pre name items).before).dropLast = words pre := by
  have hflag : looksLikeFlag (unquote (Piece.flag name)) = true := by
    rw [Piece.flag, unquote_doubleQuoted]
    rfl
  have hbefore : tokenize (Piece.stretch pre name items).before = _ :=
    (h.tokens_word_blank ('-' :: '-' :: name)).trans (h.tokens_word _)
  constructor
  · rw [Stretch.flag?, hbefore, List.getLast?_concat, Option.map_some, Option.filter_some]
    exact if_pos hflag
  · rw [words, hbefore, List.map_append, List.map_singleton, List.dropLast_concat]
    rfl

theorem stretchesFrom_pieces (pieces : List Piece) (pos : Nat) {pre : List Char} (h : Leads pre) :
    ReadAs
      (stretchesFrom pos (pre ++ Piece.joined pieces)
        (spansFrom .start pos ⟨0, none⟩ (pre ++ Piece.joined pieces)))
      (pieces.filterMap Piece.literal?) (words pre ++ pieces.filterMap Piece.word?) := by
  induction pieces generalizing pos pre with
  | nil =>
    have hline : pre ++ Piece.joined [] = pre := List.append_nil pre
    rw [hline, stretchesFrom_flat pos h.flat]
    exact ⟨rfl, by simp⟩
  | cons piece pieces ih =>
    cases piece with
    | word w =>
      cases pieces with
      | nil =>
        have hline : pre ++ Piece.joined [.word w] = pre ++ doubleQuoted w := by
          simp [Piece.joined, Piece.text]
        have hflat : Flat .start (pre ++ doubleQuoted w) :=
          h.flat.append h.bare (flat_doubleQuoted w).1
        rw [hline, stretchesFrom_flat pos hflat]
        exact ⟨rfl, h.words_word w⟩
      | cons q pieces =>
        have hline : pre ++ Piece.joined (.word w :: q :: pieces) =
            pre ++ doubleQuoted w ++ [' '] ++ Piece.joined (q :: pieces) := by
          simp [Piece.joined, Piece.text, List.intercalate_cons_cons]
        have hwords : words (pre ++ doubleQuoted w ++ [' ']) = words pre ++ [w] := by
          rw [words, h.tokens_word_blank]
          exact h.words_word w
        have hrest := ih pos (h.word w)
        rw [hwords, ← hline, List.append_assoc] at hrest
        exact hrest
    | literal name items =>
      -- what stands behind the literal begins with a blank, unless nothing does
      obtain ⟨gap, hgap, hwords, hline⟩ : ∃ gap, Leads gap ∧ words gap = [] ∧
          pre ++ Piece.joined (.literal name items :: pieces) =
            (Piece.stretch pre name items).text ++ (gap ++ Piece.joined pieces) := by
        cases pieces with
        | nil =>
          exact ⟨[], leads_nil, rfl, by
            simp [Piece.joined, Piece.text, Stretch.text, Piece.stretch]⟩
        | cons q pieces =>
          exact ⟨[' '], leads_blank, rfl, by
            simp [Piece.joined, Piece.text, Stretch.text, Piece.stretch,
              List.intercalate_cons_cons]⟩
      have hlead := h.word ('-' :: '-' :: name)
      obtain ⟨hinner, hmode⟩ := flat_inner items
      obtain ⟨hflag, hfront⟩ := flag?_stretch h name items
      have hfirst := stretchesFrom_paired (Piece.stretch pre name items) ⟨hlead.flat, hlead.bare⟩
        (Gap.paired ⟨hinner, hmode⟩) pos (gap ++ Piece.joined pieces)
      have hrest := (ih (pos + byteLength (Piece.stretch pre name items).text) hgap).cons
        (Piece.stretch pre name items)
      have hliteral : (Piece.stretch pre name items).literal = ⟨.square, items.map String.ofList⟩ :=
        literal_inner items
      rw [hflag, hfront, hliteral, hwords] at hrest
      rw [hline, hfirst]
      exact hrest

/-- **The stretches of a line of pieces are its literals, each behind its flag, and the words left
are those of the other pieces.** -/
theorem stretches_pieces (pieces : List Piece) :
    ReadAs (stretches (Piece.joined pieces)) (pieces.filterMap Piece.literal?)
      (pieces.filterMap Piece.word?) :=
  stretchesFrom_pieces pieces 0 leads_nil

end CommandShell
