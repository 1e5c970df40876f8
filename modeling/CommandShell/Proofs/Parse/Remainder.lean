import CommandShell.Proofs.Line.Tokens
import CommandShell.Proofs.Parse.Assembly
import CommandShell.Proofs.Parse.SpanBinding
/-!
# A line without its spans

The strategy with spans cuts every span out of the line, together with the flag that took the
span, and leaves a blank in its place.  At each cut the bracket scanner and the word scanner are
both outside quotes and escapes.  So the words of what remains are the words of the gaps between
the spans, and they stand there as they stood in the line: no two of them run together, none is
cut in two, lost, or quoted in another way.

    gaps raw                 the texts before, between and behind the spans of a line
    every text that is cut out lies in the line, between whole characters    (cutsInRange)
    the words that remain are those of the gaps, less the flags that took spans
                                                                       (cutting_spans_keeps_words)
-/

namespace CommandShell

open CommandShell.Text CommandShell.Line CommandShell.Literal

/-- The texts before, between and behind the spans of a line. -/
def gaps (raw : List Char) : List (List Char) :=
  (stretches raw).1.map (·.before) ++ [(stretches raw).2]

/-- The bytes between the spans, from the byte `cursor` up to the byte `stop`. -/
def gapRanges (cursor stop : Nat) : List Span → List (Nat × Nat)
  | [] => [(cursor, stop)]
  | span :: spans => (cursor, span.start) :: gapRanges span.stop stop spans

/-- What is cut out of a line stands in it between whole characters: the gaps and the insides of
the spans in the line, the words in their gaps, and what remains of a gap without its flag. -/
structure CutsInRange (raw : List Char) : Prop where
  gap : List.Forall₂ (fun range gap => Slice raw range.1 range.2 gap)
    (gapRanges 0 (byteLength raw) (spans raw)) (gaps raw)
  inner : ∀ x ∈ spans raw, Slice raw (x.start + 1) (x.stop - 1) x.inner
  word : ∀ gap ∈ gaps raw, ∀ t ∈ tokenize gap, Slice gap t.start t.stop t.text
  flag : ∀ gap ∈ gaps raw, ∀ name start, trailingFlag? gap = some (name, start) →
    Slice gap 0 start (takeBytes start gap) ∧
      rawWords (takeBytes start gap) = (rawWords gap).dropLast

/-! ## What is cut out -/

/-- The gaps of stretches behind `front` lie between the places of the stretches. -/
theorem slices_gaps (front : List Char) (sts : List Stretch) (tail : List Char) :
    let line := front ++ sts.flatMap Stretch.text ++ tail
    List.Forall₂ (fun range gap => Slice line range.1 range.2 gap)
      (gapRanges (byteLength front) (byteLength line) (places (byteLength front) sts))
      (sts.map (·.before) ++ [tail]) := by
  induction sts generalizing front with
  | nil =>
    refine .cons ⟨front, [], by simp, rfl, by simp⟩ .nil
  | cons st sts ih =>
    have hline : front ++ (st :: sts).flatMap Stretch.text ++ tail =
        front ++ st.text ++ sts.flatMap Stretch.text ++ tail := by simp
    have hrest := ih (front ++ st.text)
    rw [← hline, byteLength_append front st.text] at hrest
    refine .cons ⟨front, enclosed st.bracket st.inner ++ sts.flatMap Stretch.text ++ tail, ?_, rfl,
      (byteLength_append front st.before).symm⟩ hrest
    rw [hline, Stretch.text]
    simp

theorem Literal.Span.StandsIn.slice_inner {line : List Char} {x : Span} (h : x.StandsIn line) :
    Slice line (x.start + 1) (x.stop - 1) x.inner := by
  obtain ⟨before, after, rfl, hstart, hstop⟩ := h
  have hopening : x.bracket.opening.utf8Size = 1 := by cases x.bracket <;> rfl
  have hclosing : x.bracket.closing.utf8Size = 1 := by cases x.bracket <;> rfl
  refine ⟨before ++ [x.bracket.opening], x.bracket.closing :: after, by simp [enclosed], ?_, ?_⟩
  · rw [hstart, byteLength_append, byteLength, hopening]
    rfl
  · rw [hstop]
    simp [enclosed, byteLength, hopening, hclosing]
    omega

theorem Line.Token.StandsIn.slice {gap : List Char} {t : Token} (h : t.StandsIn gap) :
    Slice gap t.start t.stop t.text := by
  obtain ⟨a, b, hgap, hstart, hstop, -⟩ := h
  exact ⟨a, b, hgap, hstart, hstop⟩

/-- Cutting a gap before its flag takes its last word off, and nothing else. -/
theorem cut_before_flag {gap : List Char} {name : String} {start : Nat}
    (h : trailingFlag? gap = some (name, start)) :
    Slice gap 0 start (takeBytes start gap) ∧
      rawWords (takeBytes start gap) = (rawWords gap).dropLast := by
  -- a stretch with any span behind the gap
  let st : Stretch := ⟨gap, .square, []⟩
  have hflag : trailingFlag? st.before = some (name, start) := h
  rw [trailingFlag?_before] at hflag
  split at hflag
  · cases hflag
  · obtain ⟨word, hword, hcut⟩ := Option.map_eq_some_iff.1 hflag
    obtain ⟨-, rfl⟩ := Prod.mk.inj hcut
    have hfront : takeBytes (byteLength st.front) gap = st.front := takeBytes_front st hword
    obtain ⟨t, hlast, -⟩ := Option.map_eq_some_iff.1 (Option.filter_eq_some_iff.1 hword).1
    obtain ⟨b, hgap, -⟩ := front_of_last hlast
    rw [hfront]
    refine ⟨⟨[], t.text ++ b, ?_, rfl, rfl⟩, rawWords_front st⟩
    rw [List.nil_append, ← List.append_assoc]
    exact hgap

theorem cutsInRange (raw : List Char) : CutsInRange raw where
  gap := by
    have hslices := slices_gaps [] (stretches raw).1 (stretches raw).2
    rw [List.nil_append, stretches_join] at hslices
    rw [spans_eq_places]
    exact hslices
  inner _ hx := (standsIn_of_mem_spans hx).slice_inner
  word _ _ _ ht := (standsIn_of_mem_tokenize ht).2.slice
  flag _ _ _ _ h := cut_before_flag h

/-! ## What remains -/

theorem gaps_eq_map (ps : List Parameter) (raw : List Char) :
    gaps raw = (placements ps raw).map (·.stretch.before) ++ [(stretches raw).2] := by
  rw [gaps, stretches_eq_map ps raw, List.map_map]
  rfl

/-- A flag that is taken off the line names the parameter that its span is bound to. -/
theorem bound_of_claim {ps : List Parameter} {raw : List Char} {pl : Placement} {i : Nat}
    (h : pl ∈ placements ps raw) (hclaim : pl.claim = some i) :
    pl.stretch.names? ps = some i ∧
      Assoc.get? i (bindSpans ps raw).1 = some pl.stretch.literal := by
  obtain ⟨before, after, hsplit⟩ := List.append_of_mem h
  have hnames := (claim?_eq_some_iff.1 ((claim_of_placements hsplit).symm.trans hclaim)).2.1
  exact ⟨hnames, (get?_bindSpans_iff ps raw i _).2 ⟨pl, h, seat_of_claim h hclaim, rfl⟩⟩

/-- **Cutting the spans out of a line disturbs no other word.**  Every text that is cut out stands
in its line between whole characters.  Of the words in the gaps only flags are taken off, each the
last word before a span, which is bound to the parameter that the flag names.  The words of what
remains are the other words of the gaps, in order and quoted as in the line. -/
theorem cutting_spans_keeps_words (ps : List Parameter) (raw : List Char) :
    CutsInRange raw ∧
    gaps raw = (placements ps raw).map (·.stretch.before) ++ [(stretches raw).2] ∧
    (∀ pl ∈ placements ps raw, ∀ i, pl.claim = some i → pl.stretch.names? ps = some i ∧
      Assoc.get? i (bindSpans ps raw).1 = some pl.stretch.literal) ∧
    rawWords (bindSpans ps raw).2 =
      (placements ps raw).flatMap Placement.rawWords ++ rawWords (stretches raw).2 ∧
    words (bindSpans ps raw).2 =
      (placements ps raw).flatMap Placement.words ++ words (stretches raw).2 :=
  ⟨cutsInRange raw, gaps_eq_map ps raw, fun _ hpl _ hclaim => bound_of_claim hpl hclaim,
    rawWords_bindSpans ps raw, words_bindSpans ps raw⟩

/-- Quoted and escaped brackets, a span of two kinds of brackets, one between the letters of a word,
one behind its flag, and one that never ends. -/
example :
    let ps := [Parameter.flag "tags" (.set .str), .flag "sizes" (.list .int)]
    let raw := "a'[x]'\\[é (b] c[1]d --tags(e f) [g".toList
    gaps raw = ["a'[x]'\\[é (b] c".toList, "d --tags".toList, " [g".toList] ∧
    rawWords (bindSpans ps raw).2 =
      ["a'[x]'\\[é".toList, "(b]".toList, "c".toList, "d".toList, "[g".toList] := by
  decide

end CommandShell
