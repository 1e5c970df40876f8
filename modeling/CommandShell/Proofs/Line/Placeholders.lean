import CommandShell.Line.Placeholder
/-!
# Replacing placeholders

A text in which no placeholder can begin is left alone, and so is one in front of a line: what
follows it is replaced as if it stood by itself.

    Unmarked s                     `${` does not occur in s
    substitute s = s, for an unmarked s                             (substitute_of_unmarked)
    substitute (t u rest) = t u (substitute rest), for an unmarked t and a u without a dollar sign
                                                                  (substitutePieces_append)
    without random placeholders chance is no matter                  (substitute_of_chanceless)
-/

namespace CommandShell.Line

/-- No placeholder begins in the text. -/
def Unmarked (s : List Char) : Prop := ¬ ['$', '{'] <:+: s

/-- A reader that had collected something before. -/
def Reader.behind (base : List Char) : Reader → Reader
  | plain text => plain (text ++ base)
  | dollar text => dollar (text ++ base)
  | inside text expression => inside (text ++ base) expression

variable {lookup : String → Option Json} {g : Generator} {s t u rest : List Char}

theorem unmarked_of_not_mem (h : '$' ∉ s) : Unmarked s :=
  fun hs => h (hs.subset List.mem_cons_self)

theorem Unmarked.tail {c : Char} (h : Unmarked (c :: s)) : Unmarked s :=
  fun hs => h (hs.trans (List.suffix_cons c s).isInfix)

theorem Unmarked.ne_brace {c : Char} (h : Unmarked ('$' :: c :: s)) : c ≠ '{' := by
  rintro rfl
  exact h (List.prefix_append ['$', '{'] s).isInfix

/-- What was collected before stands at the front of the first piece. -/
theorem piecesFrom_behind (base : List Char) (r : Reader) (s : List Char) :
    ∃ text rest, piecesFrom r s = .plain text :: rest ∧
      piecesFrom (r.behind base) s = .plain (base.reverse ++ text) :: rest := by
  induction s generalizing r with
  | nil => cases r <;> exact ⟨_, _, rfl, by simp [Reader.behind, piecesFrom]⟩
  | cons c s ih =>
    cases r with
    | plain text =>
      simp only [piecesFrom, Reader.behind]
      split
      · exact ih (.dollar text)
      · exact ih (.plain (c :: text))
    | dollar text =>
      simp only [piecesFrom, Reader.behind]
      split
      · exact ih (.inside text [])
      · split
        · exact ih (.dollar ('$' :: text))
        · exact ih (.plain (c :: '$' :: text))
    | inside text expression =>
      simp only [piecesFrom, Reader.behind]
      split
      · split
        · exact ih (.plain ('}' :: '{' :: '$' :: text))
        · exact ⟨_, _, rfl, by simp⟩
      · exact ih (.inside text (c :: expression))

theorem substitutePieces_behind (base : List Char) (r : Reader) (s : List Char) :
    substitutePieces lookup g (piecesFrom (r.behind base) s) =
      (base.reverse ++ (substitutePieces lookup g (piecesFrom r s)).1,
        (substitutePieces lookup g (piecesFrom r s)).2) := by
  obtain ⟨text, rest, h, hbehind⟩ := piecesFrom_behind base r s
  rw [h, hbehind]
  simp only [substitutePieces, List.append_assoc]

/-- A reader goes over an unmarked text, unless what follows could complete a mark. -/
theorem piecesFrom_append (hrest : ∀ c, rest.head? = some c → c ≠ '$' ∧ c ≠ '{')
    (acc : List Char) :
    (Unmarked t → piecesFrom (.plain acc) (t ++ rest) =
        piecesFrom (.plain (t.reverse ++ acc)) rest) ∧
      (Unmarked ('$' :: t) → piecesFrom (.dollar acc) (t ++ rest) =
        piecesFrom (.plain (t.reverse ++ '$' :: acc)) rest) := by
  induction t generalizing acc with
  | nil =>
    refine ⟨fun _ => rfl, fun _ => ?_⟩
    cases rest with
    | nil => rfl
    | cons c rest =>
      obtain ⟨hdollar, hbrace⟩ := hrest c rfl
      simp [piecesFrom, hdollar, hbrace]
  | cons c t ih =>
    have hreverse (more : List Char) : (c :: t).reverse ++ more = t.reverse ++ c :: more := by
      simp
    constructor
    · intro ht
      rw [List.cons_append, piecesFrom, hreverse]
      split
      · next hc =>
        subst hc
        exact (ih acc).2 ht
      · exact (ih (c :: acc)).1 ht.tail
    · intro ht
      rw [List.cons_append, piecesFrom, if_neg ht.ne_brace, hreverse]
      split
      · next hc =>
        subst hc
        exact (ih ('$' :: acc)).2 ht.tail
      · exact (ih (c :: '$' :: acc)).1 ht.tail.tail

theorem piecesFrom_append_of_not_mem (hu : '$' ∉ u) (acc rest : List Char) :
    piecesFrom (.plain acc) (u ++ rest) = piecesFrom (.plain (u.reverse ++ acc)) rest := by
  induction u generalizing acc with
  | nil => rfl
  | cons c u ih =>
    obtain ⟨hc, hu⟩ := not_or.1 (mt List.mem_cons.2 hu)
    rw [List.cons_append, piecesFrom, if_neg (Ne.symm hc), ih hu, List.reverse_cons,
      List.append_assoc]
    rfl

/-- Behind a text that begins no placeholder a line is replaced as if it stood by itself. -/
theorem substitutePieces_append (ht : Unmarked t) (hu : '$' ∉ u)
    (hhead : ∀ c, u.head? = some c → c ≠ '{') (hne : u ≠ []) (rest : List Char) :
    substitutePieces lookup g (pieces (t ++ u ++ rest)) =
      (t ++ u ++ (substitutePieces lookup g (pieces rest)).1,
        (substitutePieces lookup g (pieces rest)).2) := by
  have hmeet : ∀ c, (u ++ rest).head? = some c → c ≠ '$' ∧ c ≠ '{' := by
    cases u with
    | nil => exact absurd rfl hne
    | cons c u =>
      rintro d hd
      obtain rfl := Option.some.inj hd
      exact ⟨fun hc => hu (hc ▸ List.mem_cons_self), hhead _ rfl⟩
  have hread : pieces (t ++ u ++ rest) =
      piecesFrom (Reader.behind (t ++ u).reverse (.plain [])) rest := by
    rw [pieces, List.append_assoc, (piecesFrom_append hmeet []).1 ht,
      piecesFrom_append_of_not_mem hu, List.append_nil, Reader.behind, List.reverse_append,
      List.nil_append]
  rw [hread, substitutePieces_behind, List.reverse_reverse]
  rfl

theorem substitute_of_unmarked {line : String} (h : Unmarked line.toList) :
    substitute lookup line g = (line, g) := by
  have hread : pieces line.toList = [.plain line.toList] := by
    have hend : ∀ c : Char, ([] : List Char).head? = some c → c ≠ '$' ∧ c ≠ '{' := by simp
    have hwhole := (piecesFrom_append hend []).1 h
    rw [List.append_nil, List.append_nil] at hwhole
    rw [pieces, hwhole, piecesFrom, List.reverse_reverse]
  rw [substitute, hread]
  simp [substitutePieces]

/-! ## Chance -/

/-- No placeholder of the text stands for a random value. -/
def Chanceless (text : String) : Prop :=
  ∀ e, .placeholder e ∈ pieces text.toList → ∃ names, Expression.read e = .path names

theorem exists_substitutePieces_of_chanceless {ps : List Piece}
    (h : ∀ e, .placeholder e ∈ ps → ∃ names, Expression.read e = .path names) :
    ∃ text, ∀ g, substitutePieces lookup g ps = (text, g) := by
  induction ps with
  | nil => exact ⟨[], fun _ => rfl⟩
  | cons p ps ih =>
    obtain ⟨more, hmore⟩ := ih fun e he => h e (List.mem_cons_of_mem p he)
    cases p with
    | plain text => exact ⟨text ++ more, fun g => by rw [substitutePieces, hmore g]⟩
    | placeholder e =>
      obtain ⟨names, hread⟩ := h e List.mem_cons_self
      refine ⟨((lookupPath lookup names).map insertText).getD (verbatim e) ++ more, fun g => ?_⟩
      simp only [substitutePieces, hread, Expression.evaluate, hmore g]

/-- What such a text becomes does not depend on chance, nor is any used up. -/
theorem exists_substitute_of_chanceless {text : String} (h : Chanceless text)
    (lookup : String → Option Json) : ∃ s, ∀ g, substitute lookup text g = (s, g) := by
  obtain ⟨s, hs⟩ := exists_substitutePieces_of_chanceless h
  exact ⟨String.ofList s, fun g => by rw [substitute, hs g]⟩

theorem substitute_of_chanceless {text : String} (h : Chanceless text) (g g' : Generator) :
    (substitute lookup text g).1 = (substitute lookup text g').1 := by
  obtain ⟨s, hs⟩ := exists_substitute_of_chanceless h lookup
  rw [hs, hs]

theorem chance_of_chanceless {text : String} (h : Chanceless text) (g : Generator) :
    (substitute lookup text g).2 = g := by
  obtain ⟨s, hs⟩ := exists_substitute_of_chanceless h lookup
  rw [hs]

end CommandShell.Line
