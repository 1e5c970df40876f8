import CommandShell.Proofs.Json.Marks
import CommandShell.Proofs.Json.Writing
import CommandShell.Proofs.Line.Spelling
/-!
# What quoting leaves of a JSON text

The text of a JSON value is one word of a line: outside its strings it has no blank and nothing
that quotes.  Read as a word, it loses the quote marks around each string and the backslash of each
escape.

    bareText v        what is left of the text of v
    the text of v is one word, which reads as that                  (spells_compactText)
    what is left has the marks of the strings in v, and no others         (marks_bareText)
    what is left of a string is the string ↔ it holds no control character
                                                                    (bareChars_eq_self_iff)
    without strings nothing is lost                                 (bareText_of_texts)
-/

namespace CommandShell.Json

open CommandShell.Text CommandShell.Line CommandShell.Literal

/-- What is left of a character of a string, once the backslash of its escape is gone. -/
def bareChar (c : Char) : List Char :=
  match escape c with
  | '\\' :: written => written
  | written => written

/-- What is left of the characters of a string. -/
def bareChars (s : List Char) : List Char := s.flatMap bareChar

mutual

/-- What is left of the text of a value when it is read as a word. -/
def bareText : Json → List Char
  | array [] => ['[', ']']
  | array (a :: as) => '[' :: bareText a ++ bareItems as ++ [']']
  | fields [] => ['{', '}']
  | fields ((k, v) :: rest) =>
    '{' :: bareChars k.toList ++ ':' :: bareText v ++ bareFields rest ++ ['}']
  | string s => bareChars s.toList
  | v => atomText v

def bareItems : List Json → List Char
  | [] => []
  | a :: as => ',' :: bareText a ++ bareItems as

def bareFields : List (String × Json) → List Char
  | [] => []
  | (k, v) :: rest => ',' :: bareChars k.toList ++ ':' :: bareText v ++ bareFields rest

end

/-- `bareText` as a string. -/
def bare (v : Json) : String := String.ofList (bareText v)

/-! ## Characters of a string -/

theorem bareChar_of_escaped {c : Char} {written : List Char} (h : escape c = '\\' :: written) :
    bareChar c = written := by
  simp only [bareChar, h]

theorem bareChar_of_plain {c : Char} (hslash : c ≠ '\\') (h : escape c = [c]) :
    bareChar c = [c] := by
  simp only [bareChar, h]
  split
  · next heq => exact absurd (List.cons.inj heq).1 hslash
  · rfl

theorem ne_quote_of_le {c : Char} (h : 48 ≤ c.toNat) : c ≠ '"' := by
  rintro rfl
  exact absurd h (by decide)

theorem marks_eq_zero {s : List Char} (h : ∀ c ∈ s, c ≠ '"' ∧ c ≠ '\\') : marks s = 0 := by
  induction s with
  | nil => rfl
  | cons c s ih =>
    obtain ⟨⟨hquote, hslash⟩, hs⟩ := List.forall_mem_cons.1 h
    rw [marks_cons, marks_singleton_eq_zero hquote hslash, ih hs]

/-- Only of control characters something else is left, and in that there is no mark and no control
character. -/
theorem bareChar_cases (c : Char) :
    (32 ≤ c.toNat ∧ bareChar c = [c]) ∨
    (c.toNat < 32 ∧ marks (bareChar c) = 0 ∧ ∀ d ∈ bareChar c, 32 ≤ d.toNat) := by
  rcases escape_cases c with
    ⟨hc, hescape⟩ | ⟨hc, d, rest, hescape, hletters⟩ | ⟨hc, -, hslash, hescape⟩
  · refine Or.inl ⟨by rcases hc with rfl | rfl <;> decide, ?_⟩
    exact bareChar_of_escaped hescape
  · rw [bareChar_of_escaped hescape]
    refine Or.inr ⟨hc, marks_eq_zero fun e he => ?_, fun e he => ?_⟩
    · exact ⟨ne_quote_of_le (hletters e he).1, (hletters e he).2⟩
    · exact Nat.le_trans (by decide) (hletters e he).1
  · exact Or.inl ⟨hc, bareChar_of_plain hslash hescape⟩

/-- A mark is no control character. -/
theorem marks_bareChar (c : Char) : marks (bareChar c) = marks [c] := by
  rcases bareChar_cases c with ⟨-, hbare⟩ | ⟨hc, hmarks, -⟩
  · rw [hbare]
  · have hquote : c ≠ '"' := by
      rintro rfl
      exact absurd hc (by decide)
    have hslash : c ≠ '\\' := by
      rintro rfl
      exact absurd hc (by decide)
    rw [hmarks, marks_singleton_eq_zero hquote hslash]

theorem bareChars_cons (c : Char) (s : List Char) :
    bareChars (c :: s) = bareChar c ++ bareChars s := List.flatMap_cons

theorem marks_bareChars (s : List Char) : marks (bareChars s) = marks s := by
  induction s with
  | nil => rfl
  | cons c s ih => rw [bareChars_cons, marks_append, marks_bareChar, ih, ← marks_cons]

/-- A string loses nothing if it holds no control character. -/
theorem bareChars_eq_self_iff (s : List Char) :
    bareChars s = s ↔ ∀ c ∈ s, 32 ≤ c.toNat := by
  constructor
  · intro h c hc
    rw [← h] at hc
    obtain ⟨d, -, hd⟩ := List.mem_flatMap.1 hc
    rcases bareChar_cases d with ⟨hle, hbare⟩ | ⟨-, -, hall⟩
    · rw [hbare, List.mem_singleton] at hd
      rw [hd]
      exact hle
    · exact hall c hd
  · intro h
    induction s with
    | nil => rfl
    | cons c s ih =>
      obtain ⟨hc, hs⟩ := List.forall_mem_cons.1 h
      rcases bareChar_cases c with ⟨-, hbare⟩ | ⟨hlt, -, -⟩
      · rw [bareChars_cons, hbare, ih hs, List.singleton_append]
      · exact absurd hc (Nat.not_le_of_lt hlt)

/-! ## Reading -/

/-- A string reads, between its quote marks, as what is left of its characters. -/
theorem reads_escape (c : Char) : Reads (.reading .double) (escape c) (bareChar c) := by
  rcases escape_cases c with
    ⟨-, hescape⟩ | ⟨-, d, rest, hescape, hletters⟩ | ⟨-, hquote, hslash, hescape⟩
  · rw [bareChar_of_escaped hescape, hescape]
    exact reads_escaped c
  · have hrest : Reads (.reading .double) rest rest := reads_of_forall fun e he => by
      obtain ⟨hle, hslash⟩ := hletters e (List.mem_cons_of_mem d he)
      exact reads_within hslash (ne_quote_of_le hle)
    rw [bareChar_of_escaped hescape, hescape]
    exact (reads_escaped d).append hrest
  · rw [bareChar_of_plain hslash hescape, hescape]
    exact reads_within hslash hquote

theorem reads_escapes (s : List Char) :
    Reads (.reading .double) (s.flatMap escape) (bareChars s) := by
  induction s with
  | nil => exact reads_nil _
  | cons c s ih =>
    rw [List.flatMap_cons, bareChars_cons]
    exact (reads_escape c).append ih

theorem reads_quoted (s : String) : Reads .start (quoted s) (bareChars s.toList) :=
  (reads_escapes s.toList).quoted

theorem reads_mark {c : Char} (h : c ∈ ['[', ']', '{', '}', ',', ':']) : Reads .start [c] [c] := by
  simp only [List.mem_cons, List.not_mem_nil, or_false] at h
  rcases h with rfl | rfl | rfl | rfl | rfl | rfl <;>
    exact reads_bare (by decide) (by decide) (by decide) (by decide)

theorem isBlank_of_isNumeralChar {c : Char} (h : isNumeralChar c = true) : isBlank c = false := by
  simp only [isNumeralChar, Bool.or_eq_true, decide_eq_true_eq] at h
  rcases h with ((((hdigit | rfl) | rfl) | rfl) | rfl) | rfl
  · exact not_blank_of_isDecimalDigit (isDecimalDigit_of_isDigit hdigit)
  all_goals decide

theorem Numeric.reads {s : List Char} (h : Numeric s) : Reads .start s s := by
  refine reads_of_forall fun c hc => ?_
  have hnumeral := h.chars c hc
  refine reads_bare ?_ ?_ ?_ (isBlank_of_isNumeralChar hnumeral)
  all_goals
    rintro rfl
    exact absurd hnumeral (by decide)

theorem Numeric.ne_nil {s : List Char} (h : Numeric s) : s ≠ [] := by
  rintro rfl
  exact absurd h.number (by decide)

theorem Numeric.marks_eq_zero {s : List Char} (h : Numeric s) : marks s = 0 := by
  refine Json.marks_eq_zero fun c hc => ?_
  have hnumeral := h.chars c hc
  constructor
  all_goals
    rintro rfl
    exact absurd hnumeral (by decide)

/-- What is written for a value without further values, if it is no string. -/
theorem atomText_cases (v : Json) (hv : ∀ s, v ≠ string s) :
    atomText v ∈ [['n', 'u', 'l', 'l'], ['t', 'r', 'u', 'e'], ['f', 'a', 'l', 's', 'e']] ∨
      Numeric (atomText v) := by
  cases v with
  | bool b => cases b <;> exact Or.inl (by decide)
  | integer n => exact Or.inr (numeric_integerText n).1
  | float x =>
    cases hx : x.isFinite with
    | true => exact Or.inr (numeric_floatText hx).1
    | false =>
      have hnull : floatText x = ['n', 'u', 'l', 'l'] := by simp [floatText, hx]
      exact Or.inl (by rw [atomText, hnull]; decide)
  | string s => exact absurd rfl (hv s)
  | _ => exact Or.inl List.mem_cons_self

/-- Such a text stands for itself as a word that is no flag. -/
structure Plain (s : List Char) : Prop where
  ne_nil : s ≠ []
  reads : Reads .start s s
  marks : marks s = 0
  looksLikeFlag : looksLikeFlag s = false

theorem plain_atomText {v : Json} (hv : ∀ s, v ≠ string s) : Plain (atomText v) := by
  rcases atomText_cases v hv with hword | hnumeric
  · have hall : ∀ s ∈ [['n', 'u', 'l', 'l'], ['t', 'r', 'u', 'e'], ['f', 'a', 'l', 's', 'e']],
        s ≠ [] ∧ Json.marks s = 0 ∧ Literal.looksLikeFlag s = false ∧
          s.all (fun c => c ≠ '\\' && c ≠ '\'' && c ≠ '"' && !isBlank c) = true := by decide
    obtain ⟨hne, hmarks, hflag, hplain⟩ := hall _ hword
    refine ⟨hne, reads_of_forall fun c hc => ?_, hmarks, hflag⟩
    have hc := List.all_eq_true.1 hplain c hc
    simp only [ne_eq, decide_not, Bool.and_eq_true, Bool.not_eq_true', decide_eq_false_iff_not]
      at hc
    exact reads_bare hc.1.1.1 hc.1.1.2 hc.1.2 hc.2
  · exact ⟨hnumeric.ne_nil, hnumeric.reads, hnumeric.marks_eq_zero, hnumeric.looksLikeFlag⟩

mutual

theorem reads_compactText : (v : Json) → Reads .start (compactText v) (bareText v)
  | array [] => (reads_mark (by decide)).cons (reads_mark (by decide))
  | array (a :: as) => by
    have hopen : Reads .start ['['] ['['] := reads_mark (by decide)
    rw [compactText, bareText]
    exact ((hopen.cons (reads_compactText a)).append (reads_compactItems as)).append
      (reads_mark (by decide))
  | fields [] => (reads_mark (by decide)).cons (reads_mark (by decide))
  | fields ((k, v) :: rest) => by
    have hopen : Reads .start ['{'] ['{'] := reads_mark (by decide)
    have hcolon : Reads .start [':'] [':'] := reads_mark (by decide)
    rw [compactText, bareText]
    exact (((hopen.cons (reads_quoted k)).append (hcolon.cons (reads_compactText v))).append
      (reads_compactFields rest)).append (reads_mark (by decide))
  | string s => by
    rw [compactText, bareText]
    exact reads_quoted s
    all_goals simp
  | null => (plain_atomText (by simp)).reads
  | bool b => (plain_atomText (by simp)).reads
  | integer n => (plain_atomText (by simp)).reads
  | float x => (plain_atomText (by simp)).reads

theorem reads_compactItems : (vs : List Json) → Reads .start (compactItems vs) (bareItems vs)
  | [] => reads_nil _
  | a :: as => by
    have hcomma : Reads .start [','] [','] := reads_mark (by decide)
    rw [compactItems, bareItems]
    exact (hcomma.cons (reads_compactText a)).append (reads_compactItems as)

theorem reads_compactFields : (named : List (String × Json)) →
    Reads .start (compactFields named) (bareFields named)
  | [] => reads_nil _
  | (k, v) :: rest => by
    have hcomma : Reads .start [','] [','] := reads_mark (by decide)
    have hcolon : Reads .start [':'] [':'] := reads_mark (by decide)
    rw [compactFields, bareFields]
    exact ((hcomma.cons (reads_quoted k)).append (hcolon.cons (reads_compactText v))).append
      (reads_compactFields rest)

end

theorem compactText_ne_nil : (v : Json) → compactText v ≠ []
  | array [] | array (_ :: _) | fields [] | fields (_ :: _) => List.cons_ne_nil _ _
  | string _ => List.cons_ne_nil _ _
  | null => (plain_atomText (by simp)).ne_nil
  | bool _ => (plain_atomText (by simp)).ne_nil
  | integer _ => (plain_atomText (by simp)).ne_nil
  | float _ => (plain_atomText (by simp)).ne_nil

/-- **The text of a value is one word of a line**, and reads as what is left of it. -/
theorem spells_compactText (v : Json) : Spells (compactText v) (bareText v) :=
  (reads_compactText v).spells (compactText_ne_nil v)

/-- A text that is no string's is not taken for a flag. -/
theorem looksLikeFlag_bareText {v : Json} (hv : ∀ s, v ≠ string s) :
    looksLikeFlag (bareText v) = false := by
  unfold bareText
  split
  · rfl
  · rfl
  · rfl
  · rfl
  · next s => exact absurd rfl (hv s)
  · exact (plain_atomText hv).looksLikeFlag

/-! ## Marks -/

theorem marks_cons_of_mem {c : Char} (h : c ∈ ['[', ']', '{', '}', ',', ':']) (s : List Char) :
    marks (c :: s) = marks s := by
  have hnone : marks [c] = 0 := by
    simp only [List.mem_cons, List.not_mem_nil, or_false] at h
    rcases h with rfl | rfl | rfl | rfl | rfl | rfl <;> rfl
  rw [marks_cons, hnone, Nat.zero_add]

mutual

/-- Of its marks a text loses two for each string in its value. -/
theorem marks_bareText : (v : Json) →
    marks (bareText v) + 2 * (texts v).length = need (texts v)
  | array [] => rfl
  | array (a :: as) => by
    have hfirst := marks_bareText a
    have hrest := marks_bareItems as
    simp (disch := decide) only [bareText, texts, itemTexts, marks_append, marks_nil,
      marks_cons_of_mem, need_append, List.length_append]
    omega
  | fields [] => rfl
  | fields ((k, v) :: rest) => by
    have hfirst := marks_bareText v
    have hrest := marks_bareFields rest
    simp (disch := decide) only [bareText, texts, fieldTexts, marks_append, marks_nil,
      marks_cons_of_mem, marks_bareChars, need_cons, need_append, List.length_append,
      List.length_cons]
    omega
  | string s => by
    simp only [bareText, texts, marks_bareChars, need_cons, need_nil, List.length_singleton]
    omega
  | null => (plain_atomText (by simp)).marks
  | bool b => (plain_atomText (by simp)).marks
  | integer n => (plain_atomText (by simp)).marks
  | float x => (plain_atomText (by simp)).marks

theorem marks_bareItems : (vs : List Json) →
    marks (bareItems vs) + 2 * (itemTexts vs).length = need (itemTexts vs)
  | [] => rfl
  | a :: as => by
    have hfirst := marks_bareText a
    have hrest := marks_bareItems as
    simp (disch := decide) only [bareItems, itemTexts, marks_append, marks_cons_of_mem, need_append,
      List.length_append]
    omega

theorem marks_bareFields : (named : List (String × Json)) →
    marks (bareFields named) + 2 * (fieldTexts named).length = need (fieldTexts named)
  | [] => rfl
  | (k, v) :: rest => by
    have hfirst := marks_bareText v
    have hrest := marks_bareFields rest
    simp (disch := decide) only [bareFields, fieldTexts, marks_append, marks_cons_of_mem,
      marks_bareChars, need_cons, need_append, List.length_append, List.length_cons]
    omega

end

/-- What is left of a text has too few marks to write the same value, if that holds a string. -/
theorem texts_of_parse?_bareText {v : Json}
    (h : parse? (String.ofList (bareText v)) = some v) : texts v = [] := by
  have hneed := need_le_of_parse? h
  have hmarks := marks_bareText v
  rw [String.toList_ofList] at hneed
  exact List.eq_nil_of_length_eq_zero (by omega)

mutual

/-- Without strings nothing is lost. -/
theorem bareText_of_texts : (v : Json) → texts v = [] → bareText v = compactText v
  | array [], _ => rfl
  | array (a :: as), h => by
    obtain ⟨ha, has⟩ := List.append_eq_nil_iff.1 h
    rw [bareText, compactText, bareText_of_texts a ha, bareItems_of_texts as has]
  | fields [], _ => rfl
  | fields ((k, v) :: rest), h => by cases h
  | string s, h => by cases h
  | null, _ => rfl
  | bool b, _ => rfl
  | integer n, _ => rfl
  | float x, _ => rfl

theorem bareItems_of_texts : (vs : List Json) → itemTexts vs = [] → bareItems vs = compactItems vs
  | [], _ => rfl
  | a :: as, h => by
    obtain ⟨ha, has⟩ := List.append_eq_nil_iff.1 h
    rw [bareItems, compactItems, bareText_of_texts a ha, bareItems_of_texts as has]

end

end CommandShell.Json
