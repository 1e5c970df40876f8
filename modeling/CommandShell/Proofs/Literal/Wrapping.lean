import CommandShell.Proofs.Literal.Nesting
/-!
# Texts that are wrapped in brackets

Taking the brackets off a text looks at its two ends alone; the scanner for spans looks at all that
stands between them.  They agree on a text exactly if what stands between its ends closes every
bracket that it opens, and no other.  Otherwise the brackets at the ends are no pair: `[1],[2]`
begins with one literal and ends with another.

    unwrap s = some (b, inner) ↔ s trimmed is inner in brackets of kind b    (unwrap_eq_some_iff)
    a text in brackets is one span ↔ its inside is paired                    (spans_enclosed_iff)
    s trimmed is one span ↔ unwrap takes its brackets off, and the inside is paired
                                                                             (lone_span_iff)
-/

namespace CommandShell.Literal

open CommandShell.Text CommandShell.Line

variable {s inner : List Char} {b : Bracket}

theorem opening_injective {b b' : Bracket} (h : b.opening = b'.opening) : b = b' := by
  have hkind := isBracket_opening b
  rw [h, isBracket_opening] at hkind
  exact (Option.some.inj hkind).symm

theorem unwrap_eq_some_iff : unwrap s = some (b, inner) ↔ trim s = enclosed b inner := by
  unfold unwrap enclosed
  cases trim s with
  | nil => simp
  | cons c rest =>
    cases hopen : Bracket.ofOpening? c with
    | none =>
      have hne : c ≠ b.opening := by
        rintro rfl
        rw [isBracket_opening] at hopen
        cases hopen
      simp [hopen, hne]
    | some b' =>
      obtain rfl := opening_of_ofOpening hopen
      simp only [hopen, Option.ite_none_right_eq_some, Option.some.injEq, Prod.mk.injEq,
        List.cons.injEq]
      constructor
      · rintro ⟨hlast, rfl, rfl⟩
        obtain ⟨front, rfl⟩ := List.getLast?_eq_some_iff.1 hlast
        exact ⟨rfl, by rw [List.dropLast_concat]⟩
      · rintro ⟨hkind, rfl⟩
        obtain rfl := opening_injective hkind
        exact ⟨List.getLast?_concat, rfl, List.dropLast_concat⟩

/-- Behind the place at which a text begins no span begins where the text does. -/
theorem ne_lone_of_pos {pos stop : Nat} (hpos : 0 < pos) (b : Bracket) (inner s : List Char) :
    spansFrom .start pos ⟨0, none⟩ s ≠ [⟨b, 0, stop, inner⟩] := by
  intro h
  rcases spansFrom_cases .start pos s with hnone | ⟨before, b', inner', rest, -, -, -, hfirst⟩
  · rw [hnone] at h
    cases h
  · rw [hfirst] at h
    have hstart := congrArg Span.start (List.cons.inj h).1
    dsimp only at hstart
    omega

theorem paired_of_lone
    (h : spans (enclosed b inner) = [⟨b, 0, byteLength (enclosed b inner), inner⟩]) :
    Paired inner := by
  have hopened : spans (enclosed b inner) =
      spansFrom .start (0 + b.opening.utf8Size) ⟨1, some ⟨b, 0, []⟩⟩ (inner ++ [b.closing]) :=
    spansFrom_opening b 0 (inner ++ [b.closing])
  rw [hopened] at h
  rcases noStray_or_split .start inner with hstray | ⟨a, b', z, rfl, ha⟩
  · refine ⟨hstray, ?_⟩
    apply Classical.byContradiction
    intro hback
    -- the last bracket is quoted, escaped, or closes an inner one: nothing ends the span
    have hinside := spansFrom_of_noStray hstray (0 + b.opening.utf8Size) ⟨b, 0, []⟩ [b.closing]
    have hlast := spansFrom_cons_noStray (c := b.closing) (fun hc => hback hc.1)
      (0 + b.opening.utf8Size + byteLength inner) (OpenSpan.pushAll inner ⟨b, 0, []⟩) []
    have hnone := (hinside.trans hlast).symm.trans h
    cases hnone
  · -- the span ends before the last bracket, if it ends as it began
    rw [List.append_assoc, List.cons_append, spansFrom_behind_paired ha] at h
    unfold OpenSpan.close at h
    split at h
    · have hfirst := congrArg Span.inner (List.cons.inj h).1
      simp [OpenSpan.pushAll] at hfirst
    · exact absurd h (ne_lone_of_pos (by have := b.opening.utf8Size_pos; omega) b _ _)

theorem spans_enclosed_iff :
    spans (enclosed b inner) = [⟨b, 0, byteLength (enclosed b inner), inner⟩] ↔ Paired inner := by
  constructor
  · exact paired_of_lone
  · intro h
    have hgap : Gap [] := ⟨trivial, rfl⟩
    have hfirst := spansFrom_paired hgap h b 0 []
    simpa [spans, byteLength, spansFrom] using hfirst

/-- A text that is one span is its brackets and what stands between them. -/
theorem eq_enclosed_of_lone {stop : Nat} (h : spans s = [⟨b, 0, stop, inner⟩])
    (hstop : stop = byteLength s) : s = enclosed b inner := by
  rcases spansFrom_cases .start 0 s with hnone | ⟨before, b', inner', rest, hs, -, -, hfirst⟩
  · rw [spans, hnone] at h
    cases h
  · rw [spans, hfirst] at h
    obtain ⟨hspan, -⟩ := List.cons.inj h
    simp only [Span.mk.injEq, Nat.zero_add] at hspan
    obtain ⟨rfl, hstart, hend, rfl⟩ := hspan
    have hbefore : before = [] := (byteLength_eq_zero_iff before).1 hstart
    have hrest : rest = [] := by
      refine (byteLength_eq_zero_iff rest).1 ?_
      rw [hs, byteLength_append] at hstop
      omega
    rw [hs, hbefore, hrest, List.nil_append, List.append_nil]

/-- **A trimmed text is one span exactly if its brackets can be taken off and its inside is
paired.** -/
theorem lone_span_iff (s : List Char) (b : Bracket) (inner : List Char) :
    spans (trim s) = [⟨b, 0, byteLength (trim s), inner⟩] ↔
      unwrap s = some (b, inner) ∧ Paired inner := by
  rw [unwrap_eq_some_iff]
  constructor
  · intro h
    have hs := eq_enclosed_of_lone h rfl
    rw [hs] at h
    exact ⟨hs, spans_enclosed_iff.1 h⟩
  · rintro ⟨hs, hinner⟩
    rw [hs]
    exact spans_enclosed_iff.2 hinner

/-- Two literals one behind the other begin and end as one does, but they are two spans. -/
theorem adjacent_literals_disagree :
    ¬ (unwrap "[1],[2]".toList = some (.square, "1],[2".toList) ↔
      spans (trim "[1],[2]".toList) =
        [⟨.square, 0, byteLength (trim "[1],[2]".toList), "1],[2".toList⟩]) := by
  decide

end CommandShell.Literal
