import CommandShell.Proofs.Parse.Stretches
/-!
# The spans of a line are its literals

Whatever a line holds, its spans are literals that stand in it one behind the other, each from its
opening bracket to the closing one of its kind.  And a line that is put together from gaps and
properly nested literals has exactly these literals as its spans: the brackets inside them and
those that are quoted or escaped make no spans of their own, and no literal is left out.

    places pos sts           the spans of stretches one behind the other from the byte pos on
    the spans of a line are the places of its stretches                (spans_eq_places)
    places ascend, and each holds its literal        (pairwise_places, exists_literal_of_mem_places)
    stretches of gaps and nested literals have their places as spans    (spansFrom_nested)
-/

namespace CommandShell

open CommandShell.Text CommandShell.Line CommandShell.Literal

/-- The spans of stretches that stand one behind the other from the byte `pos` on. -/
def places (pos : Nat) : List Stretch → List Span
  | [] => []
  | st :: sts =>
    ⟨st.bracket, pos + byteLength st.before, pos + byteLength st.text, st.inner⟩ ::
      places (pos + byteLength st.text) sts

/-- The span is a literal in the line: the text before it is as long as its start says, and it ends
behind its closing bracket. -/
def Literal.Span.StandsIn (x : Span) (line : List Char) : Prop :=
  ∃ before after, line = before ++ enclosed x.bracket x.inner ++ after ∧
    x.start = byteLength before ∧ x.stop = byteLength (before ++ enclosed x.bracket x.inner)

/-! ## Places -/

theorem spansFrom_eq_places (pos : Nat) (s : List Char) :
    spansFrom .start pos ⟨0, none⟩ s =
      places pos (stretchesFrom pos s (spansFrom .start pos ⟨0, none⟩ s)).1 := by
  induction hn : s.length using Nat.strongRecOn generalizing pos s with
  | ind n ih =>
    rcases spansFrom_cases .start pos s with hnone | ⟨before, b, inner, rest, rfl, -, -, hfirst⟩
    · rw [hnone]
      rfl
    · let st : Stretch := ⟨before, b, inner⟩
      have hlen : rest.length < n := by
        rw [← hn]
        simp [enclosed]
        omega
      have hrest := ih rest.length hlen (pos + byteLength st.text) rest rfl
      have hstretches := stretchesFrom_cons pos st rest
        (spansFrom .start (pos + byteLength st.text) ⟨0, none⟩ rest)
      have hfirst' : spansFrom .start pos ⟨0, none⟩ (st.text ++ rest) = _ := hfirst
      show spansFrom .start pos ⟨0, none⟩ (st.text ++ rest) =
        places pos (stretchesFrom pos (st.text ++ rest)
          (spansFrom .start pos ⟨0, none⟩ (st.text ++ rest))).1
      rw [hfirst']
      refine (congrArg (List.cons _) hrest).trans ?_
      exact (congrArg (fun parts => places pos parts.1) hstretches).symm

theorem spans_eq_places (line : List Char) : spans line = places 0 (stretches line).1 :=
  spansFrom_eq_places 0 line

theorem le_start_of_mem_places {pos : Nat} {sts : List Stretch} {x : Span}
    (h : x ∈ places pos sts) : pos ≤ x.start := by
  induction sts generalizing pos with
  | nil => exact (List.not_mem_nil h).elim
  | cons st sts ih =>
    rcases List.mem_cons.1 h with rfl | h
    · exact Nat.le_add_right pos _
    · exact Nat.le_trans (Nat.le_add_right pos _) (ih h)

theorem byteLength_before_lt (st : Stretch) : byteLength st.before < byteLength st.text := by
  have hpos := st.bracket.opening.utf8Size_pos
  rw [Stretch.text, byteLength_append, enclosed, byteLength]
  omega

/-- Places ascend, and none begins before the one before it ends. -/
theorem pairwise_places (pos : Nat) (sts : List Stretch) :
    (places pos sts).Pairwise fun x y => x.start < y.start ∧ x.stop ≤ y.start := by
  induction sts generalizing pos with
  | nil => exact .nil
  | cons st sts ih =>
    refine .cons ?_ (ih _)
    intro y hy
    have hstart := le_start_of_mem_places hy
    have hlt := byteLength_before_lt st
    dsimp only
    omega

theorem standsIn_of_mem_places {sts : List Stretch} {x : Span} (before after : List Char)
    (h : x ∈ places (byteLength before) sts) :
    x.StandsIn (before ++ sts.flatMap Stretch.text ++ after) := by
  induction sts generalizing before with
  | nil => exact (List.not_mem_nil h).elim
  | cons st sts ih =>
    rcases List.mem_cons.1 h with rfl | h
    · refine ⟨before ++ st.before, sts.flatMap Stretch.text ++ after, ?_, ?_, ?_⟩
      · simp [Stretch.text]
      · exact (byteLength_append before st.before).symm
      · simp [Stretch.text]
    · have hline : before ++ (st :: sts).flatMap Stretch.text ++ after =
          before ++ st.text ++ sts.flatMap Stretch.text ++ after := by simp
      rw [hline]
      refine ih (before ++ st.text) ?_
      rw [byteLength_append]
      exact h

theorem standsIn_of_mem_spans {line : List Char} {x : Span} (h : x ∈ spans line) :
    x.StandsIn line := by
  rw [spans_eq_places] at h
  have hstands := standsIn_of_mem_places [] (stretches line).2 h
  rwa [List.nil_append, stretches_join] at hstands

/-! ## Lines that are put together -/

theorem spansFrom_nested {sts : List Stretch} {tail : List Char}
    (hsts : ∀ st ∈ sts, Gap st.before ∧ Nested st.inner) (htail : Gap tail) (pos : Nat) :
    spansFrom .start pos ⟨0, none⟩ (sts.flatMap Stretch.text ++ tail) = places pos sts := by
  induction sts generalizing pos with
  | nil =>
    have hnone := spansFrom_flat htail.flat pos ⟨0, none⟩ []
    rw [List.append_nil] at hnone
    exact hnone
  | cons st sts ih =>
    obtain ⟨hgap, hnested⟩ := hsts st List.mem_cons_self
    have hfirst := spansFrom_paired hgap hnested.paired st.bracket pos
      (sts.flatMap Stretch.text ++ tail)
    have hrest := ih (fun st' hst' => hsts st' (List.mem_cons_of_mem st hst'))
      (pos + byteLength st.text)
    rw [List.flatMap_cons, List.append_assoc]
    exact hfirst.trans (congrArg (List.cons _) hrest)

/-- **The spans of a line are its literals.**  The spans of any line ascend without overlap, and
each is a literal that stands in the line at its offsets, between brackets of one kind.  A line of
gaps and properly nested literals has exactly these literals as its spans. -/
theorem spans_are_literals :
    (∀ line, (spans line).Pairwise (fun x y => x.start < y.start ∧ x.stop ≤ y.start) ∧
      ∀ x ∈ spans line, x.StandsIn line) ∧
    ∀ (sts : List Stretch) (tail : List Char), (∀ st ∈ sts, Gap st.before ∧ Nested st.inner) →
      Gap tail → spans (sts.flatMap Stretch.text ++ tail) = places 0 sts := by
  refine ⟨fun line => ⟨?_, fun x hx => standsIn_of_mem_spans hx⟩, fun sts tail hsts htail => ?_⟩
  · rw [spans_eq_places]
    exact pairwise_places 0 _
  · exact spansFrom_nested hsts htail 0

/-- Brackets of other kinds inside, quoted and escaped ones inside and outside, and characters of
several bytes. -/
theorem spans_are_literals_in_quotes_and_nested :
    let map := "k:".toList ++ enclosed .round "1".toList ++ "'\x7d'".toList
    let list : Stretch := ⟨"é\\[ '(' ".toList, .square, "x,".toList ++ enclosed .curly map ++ []⟩
    let set : Stretch := ⟨" and ".toList, .round, "\")\"ü".toList⟩
    [list, set].flatMap Stretch.text ++ " \\]".toList =
      "é\\[ '(' [x,\x7bk:(1)'\x7d'\x7d] and (\")\"ü) \\]".toList ∧
    spans ([list, set].flatMap Stretch.text ++ " \\]".toList) =
      [⟨.square, 9, 23, "x,\x7bk:(1)'\x7d'\x7d".toList⟩, ⟨.round, 28, 35, "\")\"ü".toList⟩] := by
  intro map list set
  have hmap : Nested map :=
    .literal .round (by decide) (.gap (by decide)) (.gap (by decide))
  have hlist : Nested list.inner := .literal .curly (by decide) hmap (.gap (by decide))
  have hset : Nested set.inner := .gap (by decide)
  have hsts : ∀ st ∈ [list, set], Gap st.before ∧ Nested st.inner := by
    intro st hst
    rcases List.mem_cons.1 hst with rfl | hst
    · exact ⟨by decide, hlist⟩
    · rw [List.mem_singleton.1 hst]
      exact ⟨by decide, hset⟩
  have htail : Gap " \\]".toList := by decide
  refine ⟨by decide, ?_⟩
  rw [spans_are_literals.2 [list, set] " \\]".toList hsts htail]
  decide

end CommandShell
