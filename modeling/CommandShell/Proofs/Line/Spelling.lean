import CommandShell.Proofs.Line.Quoted
import CommandShell.Proofs.Line.Words
/-!
# Words spelled in any of three ways

A word can be put on a line in single quotes, in double quotes or with a backslash before each of
its characters.  Each way has its limits: single quotes cannot hold their own mark, and an empty
word has no character to escape.  Within these limits every word may be spelled as one likes.  The
two scanners that the line passes agree on it: the one that cuts the line takes the spelling for
one token, and the one that removes quotes and escapes reads the word from that token.

    Spells s x               the line s is one token, and it reads as x
    Reads mode s x           so it is of a part of a token that begins in the mode (Reads.spells)
    each of the three spellings spells its word                    (spells_write)
    a spelled word before a blank is the first word of the line    (Spells.words_append)
    a line of words in double quotes reads back                    (words_quoted)
    a line of spelled words with blanks between reads back         (arguments_spelled)
-/

namespace CommandShell.Line

open CommandShell.Text

/-! ## Spellings -/

/-- The ways to put a word on a line. -/
inductive Spelling where
  | single
  | double
  | escaped
  deriving DecidableEq

namespace Spelling

def write : Spelling → List Char → List Char
  | single => singleQuoted
  | double => doubleQuoted
  | escaped => Line.escaped

/-- Whether the word can be spelled in this way. -/
def Suits : Spelling → List Char → Prop
  | single, x => '\'' ∉ x
  | double, _ => True
  | escaped, x => x ≠ []

instance : (spelling : Spelling) → (x : List Char) → Decidable (spelling.Suits x)
  | single, x => inferInstanceAs (Decidable ('\'' ∉ x))
  | double, _ => inferInstanceAs (Decidable True)
  | escaped, x => inferInstanceAs (Decidable (x ≠ []))

end Spelling

/-- A word and a way to spell it. -/
structure SpelledWord where
  word : List Char
  spelling : Spelling
  suits : spelling.Suits word

/-- The word as it stands on a line. -/
def SpelledWord.text (w : SpelledWord) : List Char := w.spelling.write w.word

/-- The line of spelled words, each behind its blanks, and the blanks at the end. -/
def spelledLine (pieces : List (List Char × SpelledWord)) (after : List Char) : List Char :=
  pieces.flatMap (fun p => p.1 ++ p.2.text) ++ after

/-- The words written in double quotes, with a blank between two of them. -/
def quoted (words : List (List Char)) : List Char := [' '].intercalate (words.map doubleQuoted)

/-- The line `s` is one token, which closes its quotes and reads as `x`. -/
structure Spells (s x : List Char) : Prop where
  ne_nil : s ≠ []
  uncut : Sealed .start s
  closed : Mode.start.advanceAll s = .start
  reads : unquote s = x

/-! ## Parts of a word -/

/-- From the mode on `s` cuts no word, comes back to the mode and reads as `x`. -/
structure Reads (mode : Mode) (s x : List Char) : Prop where
  uncut : Sealed mode s
  closed : mode.advanceAll s = mode
  reads : ∀ t, unquoteFrom mode (s ++ t) = x ++ unquoteFrom mode t

section

variable {mode : Mode} {s s' x x' : List Char} {c : Char}

theorem reads_nil (mode : Mode) : Reads mode [] [] := ⟨trivial, rfl, fun _ => rfl⟩

theorem Reads.append (h : Reads mode s x) (h' : Reads mode s' x') :
    Reads mode (s ++ s') (x ++ x') where
  uncut := noneBare_append.2 ⟨h.uncut, by rw [h.closed]; exact h'.uncut⟩
  closed := by rw [Mode.advanceAll_append, h.closed, h'.closed]
  reads t := by rw [List.append_assoc, h.reads, h'.reads, List.append_assoc]

theorem Reads.cons (h : Reads mode [c] [c]) (h' : Reads mode s x) : Reads mode (c :: s) (c :: x) :=
  h.append h'

theorem reads_of_forall (h : ∀ c ∈ s, Reads mode [c] [c]) : Reads mode s s := by
  induction s with
  | nil => exact reads_nil mode
  | cons c s ih =>
    obtain ⟨hc, hs⟩ := List.forall_mem_cons.1 h
    exact hc.cons (ih hs)

/-- Outside quotes a character stands for itself that neither quotes nor cuts. -/
theorem reads_bare (hslash : c ≠ '\\') (hsingle : c ≠ '\'') (hdouble : c ≠ '"')
    (hblank : isBlank c = false) : Reads .start [c] [c] where
  uncut := ⟨fun h => Bool.false_ne_true (hblank.symm.trans h.2), trivial⟩
  closed := by
    have hstep := (step_none_eq_none_iff c).2 ⟨hsingle, hdouble⟩
    simp [Mode.start, Mode.advance, hslash, hstep]
  reads := writes_singleton hslash hsingle hdouble

/-- Between double quotes every character stands for itself but the two that are escaped. -/
theorem reads_within (hslash : c ≠ '\\') (hdouble : c ≠ '"') :
    Reads (.reading .double) [c] [c] where
  uncut := ⟨fun h => Bool.false_ne_true h.1, trivial⟩
  closed := advance_double fun h => h.elim hslash hdouble
  reads t := by
    have hstep := step_double_eq_double (c := c) fun h => h.elim hslash hdouble
    simp [unquoteFrom, hslash, hstep]

/-- A backslash there takes any character literally. -/
theorem reads_escaped (c : Char) : Reads (.reading .double) ['\\', c] [c] where
  uncut := ⟨fun h => Bool.false_ne_true h.1, fun h => Bool.false_ne_true h.1, trivial⟩
  closed := rfl
  reads _ := rfl

theorem Reads.quoted (h : Reads (.reading .double) s x) : Reads .start ('"' :: s ++ ['"']) x where
  uncut := by
    refine ⟨fun hc => absurd hc.2 (by decide), noneBare_append.2 ⟨h.uncut, ?_⟩⟩
    exact ⟨fun hc => absurd hc.2 (by decide), trivial⟩
  closed := by
    have hopen : Mode.start.advance '"' = .reading .double := rfl
    have hclose : Mode.advance (.reading .double) '"' = .start := rfl
    rw [List.cons_append, Mode.advanceAll_cons, hopen, Mode.advanceAll_append, h.closed,
      Mode.advanceAll_cons, hclose, Mode.advanceAll_nil]
  reads t := by
    have hread := h.reads ('"' :: t)
    simpa [Mode.start, unquoteFrom, Quote.step, Quote.escapes] using hread

theorem Reads.spells (h : Reads .start s x) (hne : s ≠ []) : Spells s x where
  ne_nil := hne
  uncut := h.uncut
  closed := h.closed
  reads := Writes.unquote h.reads

end

/-! ## Single quotes -/

theorem step_single_eq_single {c : Char} (h : c ≠ '\'') : Quote.single.step c = .single := by
  unfold Quote.step
  split <;> simp_all

/-- Between single quotes only the closing mark has a meaning. -/
theorem advance_single {c : Char} (h : c ≠ '\'') :
    Mode.advance (.reading .single) c = .reading .single := by
  simp only [Mode.advance, Quote.escapes, Bool.and_false, step_single_eq_single h]
  rfl

theorem noneBare_single (test : Char → Bool) {s : List Char} (h : '\'' ∉ s) :
    NoneBare test (.reading .single) s ∧
      Mode.advanceAll (.reading .single) s = .reading .single := by
  induction s with
  | nil => exact ⟨trivial, rfl⟩
  | cons c s ih =>
    rw [List.mem_cons, not_or] at h
    rw [NoneBare, Mode.advanceAll_cons, advance_single (Ne.symm h.1)]
    exact ⟨⟨fun hc => Bool.false_ne_true hc.1, (ih h.2).1⟩, (ih h.2).2⟩

theorem unquoteFrom_single {s : List Char} (h : '\'' ∉ s) (t : List Char) :
    unquoteFrom (.reading .single) (s ++ t) = s ++ unquoteFrom (.reading .single) t := by
  induction s with
  | nil => rfl
  | cons c s ih =>
    rw [List.mem_cons, not_or] at h
    rw [List.cons_append, unquoteFrom, Quote.escapes, Bool.and_false, if_neg Bool.false_ne_true,
      if_pos (step_single_eq_single (Ne.symm h.1)), ih h.2, List.cons_append]

theorem spells_singleQuoted {x : List Char} (h : '\'' ∉ x) : Spells (singleQuoted x) x := by
  have hopen : Mode.start.advance '\'' = .reading .single := rfl
  have hclose : Mode.advance (.reading .single) '\'' = .start := rfl
  obtain ⟨hsealed, hmode⟩ := noneBare_single isBlank h
  have hs : singleQuoted x = '\'' :: (x ++ ['\'']) := rfl
  constructor
  · simp [hs]
  · unfold Sealed
    rw [hs, NoneBare, hopen, noneBare_append, hmode]
    exact ⟨fun hc => Bool.false_ne_true hc.2, hsealed, fun hc => Bool.false_ne_true hc.1, trivial⟩
  · rw [hs, Mode.advanceAll_cons, hopen, Mode.advanceAll_append, hmode, Mode.advanceAll_cons,
      hclose, Mode.advanceAll_nil]
  · show unquoteFrom (.reading .single) (x ++ ['\'']) = x
    rw [unquoteFrom_single h]
    exact List.append_nil x

/-! ## Double quotes and backslashes -/

theorem spells_doubleQuoted (x : List Char) : Spells (doubleQuoted x) x := by
  obtain ⟨hsealed, hmode⟩ := noneBare_doubleQuoted (show isBlank '"' = false from rfl) x
  exact ⟨by simp [doubleQuoted], hsealed, hmode, unquote_doubleQuoted x⟩

/-- Each character stands behind its backslash, and behind it the scanner is where it was. -/
theorem noneBare_escaped {test : Char → Bool} (h : test '\\' = false) (x : List Char) :
    NoneBare test .start (Line.escaped x) ∧ Mode.start.advanceAll (Line.escaped x) = .start := by
  induction x with
  | nil => exact ⟨trivial, rfl⟩
  | cons c x ih =>
    have hescape : Mode.start.advance '\\' = .escaping .none := rfl
    have hback : Mode.advance (.escaping .none) c = .start := rfl
    rw [Line.escaped, NoneBare, NoneBare, Mode.advanceAll_cons, Mode.advanceAll_cons, hescape,
      hback, h]
    exact ⟨⟨fun hc => Bool.false_ne_true hc.2, fun hc => Bool.false_ne_true hc.1, ih.1⟩, ih.2⟩

theorem spells_escaped {x : List Char} (h : x ≠ []) : Spells (Line.escaped x) x := by
  obtain ⟨hsealed, hmode⟩ := noneBare_escaped (show isBlank '\\' = false from rfl) x
  refine ⟨?_, hsealed, hmode, unquote_escaped x⟩
  cases x with
  | nil => exact absurd rfl h
  | cons c x => simp [Line.escaped]

theorem spells_write {spelling : Spelling} {x : List Char} (h : spelling.Suits x) :
    Spells (spelling.write x) x := by
  cases spelling with
  | single => exact spells_singleQuoted h
  | double => exact spells_doubleQuoted x
  | escaped => exact spells_escaped h

/-! ## Lines of spelled words -/

/-- Blanks at the front of a line are of no matter. -/
theorem words_blanks {gap : List Char} (h : allBlank gap = true) (t : List Char) :
    words (gap ++ t) = words t := by
  have hblank : ∀ c ∈ gap, isBlank c = true := List.all_eq_true.1 h
  induction gap with
  | nil => rfl
  | cons c gap ih =>
    have hskip := words_append (s := []) rfl (hblank c List.mem_cons_self) (gap ++ t)
    have hgap : ∀ d ∈ gap, isBlank d = true := fun d hd => hblank d (List.mem_cons_of_mem c hd)
    rw [List.nil_append, words_nil, List.nil_append] at hskip
    rw [List.cons_append, hskip, ih (List.all_eq_true.2 hgap) hgap]

variable {s x : List Char}

theorem Spells.words_eq (h : Spells s x) : words s = [x] := by
  unfold words
  rw [tokenize_of_sealed h.ne_nil h.uncut, List.map_singleton, h.reads]

/-- What stands behind a spelled word must begin with a blank, if it is there at all. -/
theorem Spells.words_append (h : Spells s x) {t : List Char}
    (ht : ∀ c, t.head? = some c → isBlank c = true) : words (s ++ t) = x :: words t := by
  cases t with
  | nil => rw [List.append_nil, h.words_eq, words_nil]
  | cons c t =>
    have hc := ht c rfl
    have hgap : allBlank [c] = true := by simpa [allBlank] using hc
    have hskip : words (c :: t) = words t := words_blanks hgap t
    rw [Line.words_append h.closed hc, h.words_eq, hskip]
    rfl

/-- A text with blanks at its front begins with a blank. -/
theorem isBlank_head {gap t : List Char} (hblank : allBlank gap = true) (hne : gap ≠ []) {c : Char}
    (hc : (gap ++ t).head? = some c) : isBlank c = true := by
  cases gap with
  | nil => exact absurd rfl hne
  | cons d gap =>
    obtain rfl : d = c := Option.some.inj hc
    exact List.all_eq_true.1 hblank d List.mem_cons_self

theorem spelledLine_cons (p : List Char × SpelledWord) (pieces : List (List Char × SpelledWord))
    (after : List Char) :
    spelledLine (p :: pieces) after = p.1 ++ (p.2.text ++ spelledLine pieces after) := by
  simp [spelledLine]

theorem words_spelledLine {pieces : List (List Char × SpelledWord)} {after : List Char}
    (hblank : ∀ p ∈ pieces, allBlank p.1 = true) (hgap : ∀ p ∈ pieces.tail, p.1 ≠ [])
    (hafter : allBlank after = true) :
    words (spelledLine pieces after) = pieces.map fun p => p.2.word := by
  induction pieces with
  | nil =>
    have hnone := words_blanks hafter []
    rw [List.append_nil, words_nil] at hnone
    exact hnone
  | cons p pieces ih =>
    have hrest := ih (fun q hq => hblank q (List.mem_cons_of_mem p hq))
      fun q hq => hgap q (List.mem_of_mem_tail hq)
    have hfront : ∀ c, (spelledLine pieces after).head? = some c → isBlank c = true := by
      intro c hc
      cases pieces with
      | nil => exact List.all_eq_true.1 hafter c (List.mem_of_mem_head? hc)
      | cons q pieces =>
        -- the blanks before the next word
        rw [spelledLine_cons] at hc
        exact isBlank_head (hblank q (List.mem_cons_of_mem p List.mem_cons_self))
          (hgap q List.mem_cons_self) hc
    have hspells : Spells p.2.text p.2.word := spells_write p.2.suits
    rw [spelledLine_cons, words_blanks (hblank p List.mem_cons_self), hspells.words_append hfront,
      hrest, List.map_cons]

/-- A line of quoted words reads back as these words. -/
theorem words_quoted (ws : List (List Char)) : words (quoted ws) = ws := by
  induction ws with
  | nil => rfl
  | cons w ws ih =>
    have hw := spells_doubleQuoted w
    cases ws with
    | nil =>
      have hline : quoted [w] = doubleQuoted w := by simp [quoted]
      rw [hline, hw.words_eq]
    | cons w' ws =>
      have hline : quoted (w :: w' :: ws) = doubleQuoted w ++ ([' '] ++ quoted (w' :: ws)) := by
        simp [quoted, List.intercalate_cons_cons]
      have hfront : ∀ c, ([' '] ++ quoted (w' :: ws)).head? = some c → isBlank c = true := by
        intro c hc
        have hone : allBlank [' '] = true := rfl
        exact isBlank_head hone (List.cons_ne_nil _ _) hc
      rw [hline, hw.words_append hfront, words_blanks rfl, ih]

theorem arguments_quoted (ws : List (List Char)) :
    arguments (String.ofList (quoted ws)) = ws.map String.ofList := by
  rw [arguments, String.toList_ofList, words_quoted]

/-- **A line of spelled words reads back as these words.**  Each word is spelled in any way that
suits it; between two words stand blanks, one at least, and there may be more around them. -/
theorem arguments_spelled (pieces : List (List Char × SpelledWord)) (after : List Char)
    (hblank : ∀ p ∈ pieces, allBlank p.1 = true) (hgap : ∀ p ∈ pieces.tail, p.1 ≠ [])
    (hafter : allBlank after = true) :
    arguments (String.ofList (spelledLine pieces after)) =
      pieces.map fun p => String.ofList p.2.word := by
  rw [arguments, String.toList_ofList, words_spelledLine hblank hgap hafter, List.map_map]
  rfl

/-- Quotes of the other kind, blanks and backslashes at both ends, an empty word, and blanks of
several kinds between. -/
theorem arguments_spelled_three_ways :
    let pieces : List (List Char × SpelledWord) :=
      [([' '], ⟨"\\say \"it\" ".toList, .single, by decide⟩),
       (['\t', ' '], ⟨"it's \"\\".toList, .double, trivial⟩),
       ([' ', '\u3000'], ⟨" '\\".toList, .escaped, by decide⟩),
       ([' '], ⟨[], .single, by decide⟩)]
    spelledLine pieces [' '] =
      " '\\say \"it\" '\t \"it's \\\"\\\\\" \u3000\\ \\'\\\\ '' ".toList ∧
    arguments (String.ofList (spelledLine pieces [' '])) =
      ["\\say \"it\" ", "it's \"\\", " '\\", ""] := by
  intro pieces
  have hblank : ∀ p ∈ pieces, allBlank p.1 = true := by decide
  have hgap : ∀ p ∈ pieces.tail, p.1 ≠ [] := by decide
  refine ⟨by decide, ?_⟩
  exact arguments_spelled pieces [' '] hblank hgap rfl

end CommandShell.Line
