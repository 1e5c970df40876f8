import CommandShell.Proofs.Parse.Stretches
import Mathlib.Data.List.Perm.Basic
/-!
# Which parameter takes a span

Spans are handed out in two rounds.  First every span goes to the parameter that the flag before
it names, unless that parameter has a span already; its flag is then taken off the line.  The other
spans go in order to the collection parameters that have none, and the text before them stays on
the line as it is, a flag that named a parameter in vain included.

    the literals bound = those of the placements                   (get?_bindSpans_iff)
    the words read after the spans = the words of the placements and of the tail
                                                                   (words_bindSpans)
    every flagged span stays with its flag ↔ no parameter is named before two spans, and no flag
    before a span ends in a blank                                  (flagged_spans_stay_iff)
-/

namespace CommandShell

open CommandShell.Text CommandShell.Line CommandShell.Literal

/-- The parameter that a span goes to by the flag before it, if it has no span yet. -/
def Stretch.claim? (ps : List Parameter) (taken : List Nat) (st : Stretch) : Option Nat :=
  if st.endsInBlank then none else (st.names? ps).filter fun i => i ∉ taken

/-- The stretches of a line with what their flags claim, one after the other. -/
def claims (ps : List Parameter) (taken : List Nat) : List Stretch → List (Stretch × Option Nat)
  | [] => []
  | st :: rest =>
    (st, st.claim? ps taken) :: claims ps (taken ++ (st.claim? ps taken).toList) rest

/-- The positions of the collection parameters that have no span yet. -/
def openSeats (taken : List Nat) (position : Nat) : List Parameter → List Nat
  | [] => []
  | p :: rest =>
    if p.type.isCollection && position ∉ taken then position :: openSeats taken (position + 1) rest
    else openSeats taken (position + 1) rest

/-- A stretch, the position that its flag claims for the span, and the position of the parameter
that gets the span in the end. -/
structure Placement where
  stretch : Stretch
  claim : Option Nat
  seat : Option Nat

/-- The words before the span that are read as words of the line afterwards. -/
def Placement.words (pl : Placement) : List (List Char) :=
  if pl.claim.isSome then (Line.words pl.stretch.before).dropLast else Line.words pl.stretch.before

/-- `Placement.words` as they stand in the line, with their quoting. -/
def Placement.rawWords (pl : Placement) : List (List Char) :=
  if pl.claim.isSome then (Line.rawWords pl.stretch.before).dropLast
  else Line.rawWords pl.stretch.before

/-- Hands the free seats out, in order, to the spans without a claim. -/
def place (free : List Nat) : List (Stretch × Option Nat) → List Placement
  | [] => []
  | (st, some i) :: rest => ⟨st, some i, some i⟩ :: place free rest
  | (st, none) :: rest => ⟨st, none, free.head?⟩ :: place free.tail rest

/-- The claims of a line. -/
def lineClaims (ps : List Parameter) (raw : List Char) : List (Stretch × Option Nat) :=
  claims ps [] (stretches raw).1

/-- Where the spans of a line go. -/
def placements (ps : List Parameter) (raw : List Char) : List Placement :=
  place (openSeats ((lineClaims ps raw).filterMap (·.2)) 0 ps) (lineClaims ps raw)

/-- Every span whose flag names a collection parameter goes to that parameter, or to none if the
parameter has an earlier span; and its flag is not read again with the words of the line. -/
def FlaggedSpansStay (ps : List Parameter) (raw : List Char) : Prop :=
  ∀ before pl after i, placements ps raw = before ++ pl :: after →
    pl.stretch.names? ps = some i →
    (pl.seat = some i ∨ pl.seat = none ∧ ∃ earlier ∈ before, earlier.seat = some i) ∧
      pl.words = (words pl.stretch.before).dropLast

/-- No parameter is named before two spans, and no flag before a span ends in a blank. -/
structure NamedOnce (ps : List Parameter) (raw : List Char) : Prop where
  once : (stretches raw).1.Pairwise fun st st' =>
    ∀ i, st.names? ps = some i → st'.names? ps ≠ some i
  plain : ∀ st ∈ (stretches raw).1, st.names? ps ≠ none → st.endsInBlank = false

/-! ## The first round -/

/-- What a claimed span adds to the literals bound. -/
def boundBy (x : Stretch × Option Nat) : Option (Nat × Collection) :=
  x.2.map fun i => (i, x.1.literal)

/-- What a span without a claim adds to the free literals. -/
def freeBy (x : Stretch × Option Nat) : Option Collection :=
  if x.2.isSome then none else some x.1.literal

/-- The text before the span that stays on the line. -/
def textLeft (x : Stretch × Option Nat) : List Char :=
  (if x.2.isSome then x.1.front else x.1.before) ++ [' ']

/-- A flag that names a parameter claims it if the parameter can be bound. -/
theorem claim?_of_position {ps : List Parameter} {st : Stretch} {word : List Char} {i : Nat}
    (hends : st.endsInBlank = false) (hflag : st.flag? = some word)
    (hposition : Parameter.position? ps (Stretch.nameIn word) = some i)
    (bound : List (Nat × Collection)) :
    st.claim? ps (Assoc.keys bound) = if canBind ps bound i then some i else none := by
  cases hcollects : ps[i]?.any fun p => p.type.isCollection with
  | false =>
    simp [Stretch.claim?, Stretch.names?, Stretch.namedBy?, hends, hflag, hposition, canBind,
      Option.filter, hcollects]
  | true =>
    cases hget : Assoc.get? i bound <;>
      simp [Stretch.claim?, Stretch.names?, Stretch.namedBy?, hends, hflag, hposition, canBind,
        Option.filter, hcollects, Assoc.mem_keys_iff, Assoc.contains, hget]

theorem add_before (ps : List Parameter) (b : Binding) (st : Stretch) :
    let x := (st, st.claim? ps (Assoc.keys b.bound))
    b.add ps st.before st.literal =
      ⟨b.bound ++ (boundBy x).toList, b.free ++ (freeBy x).toList, b.remainder ++ textLeft x⟩ := by
  have hfree (o : Option Nat) (ho : o = none) :
      (⟨b.bound, b.free ++ [st.literal], b.remainder ++ st.before ++ [' ']⟩ : Binding) =
        ⟨b.bound ++ (boundBy (st, o)).toList, b.free ++ (freeBy (st, o)).toList,
          b.remainder ++ textLeft (st, o)⟩ := by
    subst ho
    simp [boundBy, freeBy, textLeft]
  intro x
  rw [Binding.add, trailingFlag?_before]
  cases hends : st.endsInBlank with
  | true => exact hfree _ (by simp [Stretch.claim?, hends])
  | false =>
    cases hflag : st.flag? with
    | none => exact hfree _ (by simp [Stretch.claim?, Stretch.names?, hends, hflag])
    | some word =>
      cases hposition : Parameter.position? ps (Stretch.nameIn word) with
      | none =>
        simp only [Option.map_some, Bool.false_eq_true, if_false, Option.bind_eq_bind,
          Option.bind_some, hposition, Option.bind_none]
        exact hfree _ (by
          simp [Stretch.claim?, Stretch.names?, Stretch.namedBy?, hends, hflag, hposition])
      | some i =>
        simp only [Option.map_some, Bool.false_eq_true, if_false, Option.bind_eq_bind,
          Option.bind_some, hposition]
        have hclaim := claim?_of_position hends hflag hposition b.bound
        cases hcan : canBind ps b.bound i with
        | false => exact hfree _ (by rw [hclaim, hcan]; rfl)
        | true =>
          have hnew : i ∉ Assoc.keys b.bound := by
            intro hmem
            simp [canBind, Assoc.contains, Assoc.mem_keys_iff.1 hmem] at hcan
          have hx : x = (st, some i) := by
            show (st, st.claim? ps (Assoc.keys b.bound)) = _
            rw [hclaim, hcan]
            rfl
          rw [hx]
          simp [boundBy, freeBy, textLeft, takeBytes_front st hflag, Assoc.put_of_not_mem hnew]

theorem foldl_add (ps : List Parameter) (sts : List Stretch) (b : Binding) :
    let cs := claims ps (Assoc.keys b.bound) sts
    sts.foldl (fun b st => b.add ps st.before st.literal) b =
      ⟨b.bound ++ cs.filterMap boundBy, b.free ++ cs.filterMap freeBy,
        b.remainder ++ cs.flatMap textLeft⟩ := by
  induction sts generalizing b with
  | nil => simp [claims]
  | cons st sts ih =>
    have hkeys (o : Option Nat) :
        Assoc.keys (b.bound ++ (boundBy (st, o)).toList) = Assoc.keys b.bound ++ o.toList := by
      cases o <;> simp [Assoc.keys, boundBy]
    rw [List.foldl_cons, ih, add_before]
    dsimp only
    rw [hkeys, claims]
    cases st.claim? ps (Assoc.keys b.bound) with
    | none => simp [boundBy, freeBy, List.filterMap_cons]
    | some i => simp [boundBy, freeBy]

theorem addAll_eq (ps : List Parameter) (b : Binding) (cursor : Nat) (rest : List Char)
    (spans : List Span) :
    let parts := stretchesFrom cursor rest spans
    let b' := parts.1.foldl (fun b st => b.add ps st.before st.literal) b
    b.addAll ps cursor rest spans = { b' with remainder := b'.remainder ++ parts.2 } := by
  induction spans generalizing b cursor rest with
  | nil => rfl
  | cons span spans ih => exact ih _ _ _

/-! ## The second round -/

theorem openSeats_congr {taken taken' : List Nat} {n : Nat} {ps : List Parameter}
    (h : ∀ i, n ≤ i → (i ∈ taken ↔ i ∈ taken')) : openSeats taken n ps = openSeats taken' n ps := by
  induction ps generalizing n with
  | nil => rfl
  | cons p ps ih =>
    have hrest := ih (n := n + 1) fun i hi => h i (by omega)
    rw [openSeats, openSeats, hrest]
    simp only [h n (Nat.le_refl n)]

theorem bindFree_eq (bound : List (Nat × Collection)) (n : Nat) (free : List Collection)
    (ps : List Parameter) :
    bindFree bound n free ps = bound ++ (openSeats (Assoc.keys bound) n ps).zip free := by
  induction ps generalizing bound n free with
  | nil => cases free <;> simp [bindFree, openSeats]
  | cons p ps ih =>
    cases free with
    | nil => simp [bindFree]
    | cons literal free =>
      have hopen : (p.type.isCollection && !Assoc.contains n bound) =
          (p.type.isCollection && decide (n ∉ Assoc.keys bound)) := by
        rw [Assoc.contains]
        cases hget : Assoc.get? n bound <;> simp [Assoc.mem_keys_iff, hget]
      rw [bindFree, openSeats, hopen]
      split
      · next h =>
        have hnew : n ∉ Assoc.keys bound := by
          rw [Bool.and_eq_true, decide_eq_true_eq] at h
          exact h.2
        have hkeys : Assoc.keys (bound ++ [(n, literal)]) = Assoc.keys bound ++ [n] := by
          simp [Assoc.keys]
        rw [Assoc.put_of_not_mem hnew, ih, hkeys, openSeats_congr fun i hi => ?_,
          List.zip_cons_cons, List.append_assoc]
        · rfl
        · have : i ≠ n := by omega
          simp [this]
      · exact ih _ _ _

/-! ## Both rounds -/

/-- The literal of a placement, with the parameter it is bound to. -/
def Placement.bound (pl : Placement) : Option (Nat × Collection) :=
  pl.seat.map fun i => (i, pl.stretch.literal)

theorem place_perm (free : List Nat) (cs : List (Stretch × Option Nat)) :
    ((place free cs).filterMap Placement.bound).Perm
      (cs.filterMap boundBy ++ free.zip (cs.filterMap freeBy)) := by
  induction cs generalizing free with
  | nil => simp [place]
  | cons x cs ih =>
    obtain ⟨st, o⟩ := x
    cases o with
    | some i => exact (ih free).cons (i, st.literal)
    | none =>
      cases free with
      | nil => exact ih []
      | cons j free =>
        exact ((ih free).cons (j, st.literal)).trans List.perm_middle.symm

/-- Cutting the claimed flags and the spans off leaves every other word as it stands. -/
theorem rawWords_place (free : List Nat) (cs : List (Stretch × Option Nat)) (tail : List Char)
    (h : ∀ x ∈ cs, Mode.start.advanceAll x.1.before = .start) :
    rawWords (cs.flatMap textLeft ++ tail) =
      (place free cs).flatMap Placement.rawWords ++ rawWords tail := by
  induction cs generalizing free with
  | nil => rfl
  | cons x cs ih =>
    obtain ⟨st, o⟩ := x
    have hbare := h _ List.mem_cons_self
    have hcs := fun free => ih free fun x hx => h x (List.mem_cons_of_mem _ hx)
    have hblank : isBlank ' ' = true := rfl
    cases o with
    | some i =>
      rw [List.flatMap_cons, List.append_assoc]
      show rawWords (st.front ++ [' '] ++ _) = _
      rw [List.append_assoc, List.singleton_append, rawWords_append (bare_front hbare) hblank,
        rawWords_front, hcs free, place, List.flatMap_cons, List.append_assoc]
      rfl
    | none =>
      rw [List.flatMap_cons, List.append_assoc]
      show rawWords (st.before ++ [' '] ++ _) = _
      rw [List.append_assoc, List.singleton_append, rawWords_append hbare hblank, hcs free.tail,
        place, List.flatMap_cons, List.append_assoc]
      rfl

theorem bindSpans_eq (ps : List Parameter) (raw : List Char) :
    let cs := lineClaims ps raw
    let bound := cs.filterMap boundBy
    bindSpans ps raw = (bound ++ (openSeats (Assoc.keys bound) 0 ps).zip (cs.filterMap freeBy),
      cs.flatMap textLeft ++ (stretches raw).2) := by
  intro cs bound
  unfold bindSpans
  rw [addAll_eq, foldl_add]
  dsimp only
  rw [bindFree_eq]
  rfl

theorem claim?_eq_some_iff {ps : List Parameter} {taken : List Nat} {st : Stretch} {i : Nat} :
    st.claim? ps taken = some i ↔
      st.endsInBlank = false ∧ st.names? ps = some i ∧ i ∉ taken := by
  cases h : st.endsInBlank with
  | true => simp [Stretch.claim?, h]
  | false => simp [Stretch.claim?, h, Option.filter_eq_some_iff]

theorem nodup_claims {taken : List Nat} (h : taken.Nodup) (ps : List Parameter)
    (sts : List Stretch) : (taken ++ (claims ps taken sts).filterMap (·.2)).Nodup := by
  induction sts generalizing taken with
  | nil => simpa [claims] using h
  | cons st sts ih =>
    rw [claims, List.filterMap_cons]
    cases hclaim : st.claim? ps taken with
    | none => simpa using ih h
    | some i =>
      have hnew := (claim?_eq_some_iff.1 hclaim).2.2
      have hnodup : (taken ++ [i]).Nodup := by
        rw [List.nodup_append]
        exact ⟨h, by simp, fun a ha b hb => by
          rw [List.mem_singleton.1 hb]; exact fun he => hnew (he ▸ ha)⟩
      simpa using ih hnodup

/-- The parameter at that position is a collection. -/
def Collects (ps : List Parameter) (i : Nat) : Prop :=
  ∃ p, ps[i]? = some p ∧ p.type.isCollection = true

theorem collects_of_names {ps : List Parameter} {st : Stretch} {i : Nat}
    (h : st.names? ps = some i) : Collects ps i := by
  obtain ⟨word, -, hnamed⟩ := Option.bind_eq_some_iff.1 h
  have hany := (Option.filter_eq_some_iff.1 hnamed).2
  exact (Option.any_eq_true _ _).1 hany

theorem collects_of_claims {ps : List Parameter} {sts : List Stretch} {taken : List Nat} {i : Nat}
    (h : i ∈ (claims ps taken sts).filterMap (·.2)) : Collects ps i := by
  induction sts generalizing taken with
  | nil => cases h
  | cons st sts ih =>
    rw [claims, List.filterMap_cons] at h
    cases hclaim : st.claim? ps taken with
    | none =>
      rw [hclaim] at h
      exact ih h
    | some j =>
      rw [hclaim] at h
      rcases List.mem_cons.1 h with rfl | h
      · exact collects_of_names (claim?_eq_some_iff.1 hclaim).2.1
      · exact ih h

/-- The seats are the positions of the collection parameters that are not taken. -/
theorem mem_openSeats_iff {taken : List Nat} {n i : Nat} {ps : List Parameter} :
    i ∈ openSeats taken n ps ↔ i ∉ taken ∧ ∃ k, i = n + k ∧ Collects ps k := by
  induction ps generalizing n with
  | nil => simp [openSeats, Collects]
  | cons p ps ih =>
    have hrest : (∃ k, i = n + k ∧ Collects (p :: ps) k) ↔
        (i = n ∧ p.type.isCollection = true) ∨ ∃ k, i = n + 1 + k ∧ Collects ps k := by
      constructor
      · rintro ⟨k, rfl, hk⟩
        cases k with
        | zero =>
          obtain ⟨q, hq, hcollects⟩ := hk
          cases hq
          exact Or.inl ⟨rfl, hcollects⟩
        | succ k => exact Or.inr ⟨k, by omega, hk⟩
      · rintro (⟨rfl, hcollects⟩ | ⟨k, rfl, hk⟩)
        · exact ⟨0, rfl, p, rfl, hcollects⟩
        · exact ⟨k + 1, by omega, hk⟩
    rw [openSeats, hrest]
    split
    · next hopen =>
      rw [Bool.and_eq_true, decide_eq_true_eq] at hopen
      rw [List.mem_cons, ih]
      constructor
      · rintro (rfl | ⟨hnew, hk⟩)
        · exact ⟨hopen.2, Or.inl ⟨rfl, hopen.1⟩⟩
        · exact ⟨hnew, Or.inr hk⟩
      · rintro ⟨hnew, ⟨rfl, -⟩ | hk⟩
        · exact Or.inl rfl
        · exact Or.inr ⟨hnew, hk⟩
    · next hclosed =>
      rw [ih]
      refine and_congr_right fun hnew => (or_iff_right ?_).symm
      rintro ⟨rfl, hcollects⟩
      exact hclosed (by simp [hcollects, hnew])

theorem nodup_openSeats (taken : List Nat) (n : Nat) (ps : List Parameter) :
    (openSeats taken n ps).Nodup := by
  induction ps generalizing n with
  | nil => exact .nil
  | cons p ps ih =>
    rw [openSeats]
    split
    · refine List.nodup_cons.2 ⟨fun h => ?_, ih _⟩
      obtain ⟨-, k, hk, -⟩ := mem_openSeats_iff.1 h
      omega
    · exact ih _

theorem keys_boundBy (cs : List (Stretch × Option Nat)) :
    Assoc.keys (cs.filterMap boundBy) = cs.filterMap (·.2) := by
  induction cs with
  | nil => rfl
  | cons x cs ih =>
    obtain ⟨st, o⟩ := x
    unfold Assoc.keys at ih ⊢
    cases o <;> simp [boundBy, List.filterMap_cons, ih]

theorem keys_zip_sublist (seats : List Nat) (free : List Collection) :
    (Assoc.keys (seats.zip free)).Sublist seats := by
  induction seats generalizing free with
  | nil => exact .slnil
  | cons i seats ih =>
    cases free with
    | nil => exact List.nil_sublist _
    | cons literal free => exact (ih free).cons_cons i

/-- The parameters that get spans: those that flags claim, and then those that are left. -/
theorem keys_bindSpans (ps : List Parameter) (raw : List Char) :
    let claimed := (lineClaims ps raw).filterMap (·.2)
    ∃ seats, seats.Sublist (openSeats claimed 0 ps) ∧
      Assoc.keys (bindSpans ps raw).1 = claimed ++ seats := by
  intro claimed
  have happ (m m' : List (Nat × Collection)) :
      Assoc.keys (m ++ m') = Assoc.keys m ++ Assoc.keys m' := List.map_append
  refine ⟨_, keys_zip_sublist (openSeats claimed 0 ps) ((lineClaims ps raw).filterMap freeBy), ?_⟩
  rw [bindSpans_eq]
  dsimp only
  rw [happ, keys_boundBy]

/-- No parameter gets two spans. -/
theorem nodup_bindSpans (ps : List Parameter) (raw : List Char) :
    (Assoc.keys (bindSpans ps raw).1).Nodup := by
  obtain ⟨seats, hseats, hkeys⟩ := keys_bindSpans ps raw
  rw [hkeys, List.nodup_append]
  refine ⟨nodup_claims .nil ps _, (nodup_openSeats _ 0 ps).sublist hseats, ?_⟩
  rintro i hi j hj rfl
  exact (mem_openSeats_iff.1 (hseats.subset hj)).1 hi

/-- Literals are bound to collection parameters. -/
theorem collects_of_mem_bindSpans {ps : List Parameter} {raw : List Char} {i : Nat}
    (h : i ∈ Assoc.keys (bindSpans ps raw).1) : Collects ps i := by
  obtain ⟨seats, hseats, hkeys⟩ := keys_bindSpans ps raw
  rw [hkeys] at h
  rcases List.mem_append.1 h with h | h
  · exact collects_of_claims h
  · obtain ⟨-, k, rfl, hk⟩ := mem_openSeats_iff.1 (hseats.subset h)
    rwa [Nat.zero_add]

/-- **The literals that the parameters are bound to are those of the placements.** -/
theorem get?_bindSpans_iff (ps : List Parameter) (raw : List Char) (i : Nat)
    (literal : Collection) :
    Assoc.get? i (bindSpans ps raw).1 = some literal ↔
      ∃ pl ∈ placements ps raw, pl.seat = some i ∧ pl.stretch.literal = literal := by
  have hperm : ((placements ps raw).filterMap Placement.bound).Perm (bindSpans ps raw).1 := by
    rw [bindSpans_eq, placements]
    dsimp only
    rw [keys_boundBy]
    exact place_perm _ _
  have hmem : Assoc.get? i (bindSpans ps raw).1 = some literal ↔
      (i, literal) ∈ (bindSpans ps raw).1 :=
    ⟨Assoc.mem_of_get?, Assoc.get?_of_mem (nodup_bindSpans ps raw)⟩
  rw [hmem, ← hperm.mem_iff, List.mem_filterMap]
  simp [Placement.bound]

theorem map_fst_claims (ps : List Parameter) (taken : List Nat) (sts : List Stretch) :
    (claims ps taken sts).map (·.1) = sts := by
  induction sts generalizing taken with
  | nil => rfl
  | cons st sts ih => rw [claims, List.map_cons, ih]

theorem rawWords_bindSpans (ps : List Parameter) (raw : List Char) :
    rawWords (bindSpans ps raw).2 =
      (placements ps raw).flatMap Placement.rawWords ++ rawWords (stretches raw).2 := by
  rw [bindSpans_eq]
  refine rawWords_place _ _ _ fun x hx => @bare_before raw x.1 ?_
  rw [← map_fst_claims ps [] (stretches raw).1]
  exact List.mem_map_of_mem hx

theorem words_placement (pl : Placement) : pl.words = pl.rawWords.map unquote := by
  rw [Placement.words, Placement.rawWords, words_eq_map]
  split
  · rw [List.map_dropLast]
  · rfl

/-- **The words read after the spans are those of the placements and of the tail.** -/
theorem words_bindSpans (ps : List Parameter) (raw : List Char) :
    words (bindSpans ps raw).2 =
      (placements ps raw).flatMap Placement.words ++ words (stretches raw).2 := by
  rw [words_eq_map, rawWords_bindSpans, List.map_append, List.map_flatMap, ← words_eq_map,
    funext words_placement]

/-! ## Flags and their spans -/

theorem map_place (free : List Nat) (cs : List (Stretch × Option Nat)) :
    (place free cs).map (fun pl => (pl.stretch, pl.claim)) = cs := by
  induction cs generalizing free with
  | nil => rfl
  | cons x cs ih =>
    obtain ⟨st, o⟩ := x
    cases o <;> rw [place, List.map_cons, ih]

theorem seat_of_claim {free : List Nat} {cs : List (Stretch × Option Nat)} {pl : Placement}
    (h : pl ∈ place free cs) {i : Nat} (hclaim : pl.claim = some i) : pl.seat = some i := by
  induction cs generalizing free with
  | nil => cases h
  | cons x cs ih =>
    obtain ⟨st, o⟩ := x
    cases o with
    | none =>
      rcases List.mem_cons.1 h with rfl | h
      · cases hclaim
      · exact ih h
    | some j =>
      rcases List.mem_cons.1 h with rfl | h
      · exact hclaim
      · exact ih h

theorem claim_of_split {ps : List Parameter} {taken : List Nat} {sts : List Stretch}
    {before after : List (Stretch × Option Nat)} {x : Stretch × Option Nat}
    (h : claims ps taken sts = before ++ x :: after) :
    x.2 = x.1.claim? ps (taken ++ before.filterMap (·.2)) := by
  induction before generalizing taken sts with
  | nil =>
    cases sts with
    | nil => cases h
    | cons st sts =>
      cases h
      simp
  | cons y before ih =>
    cases sts with
    | nil => cases h
    | cons st sts =>
      rw [claims, List.cons_append, List.cons.injEq] at h
      obtain ⟨rfl, h⟩ := h
      rw [ih h, List.append_assoc, List.filterMap_cons]
      dsimp only
      cases st.claim? ps taken <;> rfl

section Line

variable {ps : List Parameter} {raw : List Char} {before after : List Placement} {pl : Placement}

/-- A flag claims what it names, unless an earlier one has claimed it. -/
theorem claim_of_placements (h : placements ps raw = before ++ pl :: after) :
    pl.claim = pl.stretch.claim? ps (before.filterMap (·.claim)) := by
  have hmap := map_place (openSeats ((lineClaims ps raw).filterMap (·.2)) 0 ps) (lineClaims ps raw)
  rw [show place _ _ = _ from h, List.map_append, List.map_cons] at hmap
  have hclaim := claim_of_split hmap.symm
  rw [List.nil_append, List.filterMap_map] at hclaim
  exact hclaim

theorem stretches_eq_map (ps : List Parameter) (raw : List Char) :
    (stretches raw).1 = (placements ps raw).map (·.stretch) := by
  have hmap := map_place (openSeats ((lineClaims ps raw).filterMap (·.2)) 0 ps) (lineClaims ps raw)
  have hfst := congrArg (List.map (·.1)) hmap
  rw [List.map_map] at hfst
  exact ((map_fst_claims ps [] (stretches raw).1).symm.trans hfst.symm)

/-- Only the claim of a flag takes its word off the line. -/
theorem words_eq_dropLast_iff {i : Nat} (hnames : pl.stretch.names? ps = some i) :
    pl.words = (words pl.stretch.before).dropLast ↔ pl.claim.isSome = true := by
  have hne : words pl.stretch.before ≠ (words pl.stretch.before).dropLast := by
    obtain ⟨word, hflag, -⟩ := Option.bind_eq_some_iff.1 hnames
    obtain ⟨t, hlast, -⟩ := Option.map_eq_some_iff.1 (Option.filter_eq_some_iff.1 hflag).1
    have hpos : 0 < (words pl.stretch.before).length := by
      rw [words, List.length_map]
      exact List.length_pos_of_mem (List.mem_of_getLast? hlast)
    intro he
    have hlen := congrArg List.length he
    rw [List.length_dropLast] at hlen
    omega
  rw [Placement.words]
  cases pl.claim with
  | none => simpa using hne
  | some j => simp

/-- Where every flagged span stays, every flag before a span claims what it names. -/
theorem FlaggedSpansStay.claim (hstay : FlaggedSpansStay ps raw)
    (h : placements ps raw = before ++ pl :: after) {i : Nat}
    (hnames : pl.stretch.names? ps = some i) :
    pl.stretch.endsInBlank = false ∧ i ∉ before.filterMap (·.claim) ∧ pl.claim = some i := by
  have hsome := (words_eq_dropLast_iff hnames).1 (hstay before pl after i h hnames).2
  obtain ⟨j, hj⟩ := Option.isSome_iff_exists.1 hsome
  obtain ⟨hends, hj', hnew⟩ := claim?_eq_some_iff.1 ((claim_of_placements h).symm.trans hj)
  obtain rfl : i = j := Option.some.inj (hnames.symm.trans hj')
  exact ⟨hends, hnew, hj⟩

/-- Where every parameter is named once, every flag before a span claims what it names. -/
theorem NamedOnce.claim (honce : NamedOnce ps raw) (h : placements ps raw = before ++ pl :: after)
    {i : Nat} (hnames : pl.stretch.names? ps = some i) : pl.claim = some i := by
  have hstretches := stretches_eq_map ps raw
  rw [h, List.map_append, List.map_cons] at hstretches
  rw [claim_of_placements h, claim?_eq_some_iff]
  refine ⟨honce.plain _ (by simp [hstretches]) (by simp [hnames]), hnames, fun hmem => ?_⟩
  obtain ⟨q, hq, hclaim⟩ := List.mem_filterMap.1 hmem
  obtain ⟨b, a, rfl⟩ := List.append_of_mem hq
  have hq' : q.stretch.names? ps = some i := by
    have hsplit : placements ps raw = b ++ q :: (a ++ pl :: after) := by simp [h]
    exact (claim?_eq_some_iff.1 ((claim_of_placements hsplit).symm.trans hclaim)).2.1
  have hpair := honce.once
  rw [hstretches, List.pairwise_append] at hpair
  exact hpair.2.2 q.stretch (List.mem_map_of_mem hq) pl.stretch List.mem_cons_self i hq' hnames

end Line

/-- **Spans stay with their flags exactly if no parameter is named before two spans and no flag
before a span ends in a blank.**  The placements say what the strategy does with the line: which
literals its parameters are bound to, and which words of the line it reads afterwards. -/
theorem flagged_spans_stay_iff (ps : List Parameter) (raw : List Char) :
    (∀ i literal, Assoc.get? i (bindSpans ps raw).1 = some literal ↔
      ∃ pl ∈ placements ps raw, pl.seat = some i ∧ pl.stretch.literal = literal) ∧
    words (bindSpans ps raw).2 =
      (placements ps raw).flatMap Placement.words ++ words (stretches raw).2 ∧
    (FlaggedSpansStay ps raw ↔ NamedOnce ps raw) := by
  refine ⟨get?_bindSpans_iff ps raw, words_bindSpans ps raw, fun hstay => ⟨?_, ?_⟩, fun honce => ?_⟩
  · rw [stretches_eq_map ps raw, List.pairwise_map, List.pairwise_iff_getElem]
    intro j k hj hk hlt i hnames hnames'
    have h : placements ps raw = (placements ps raw).take k ++ (placements ps raw)[k] ::
        (placements ps raw).drop (k + 1) := by simp
    have hmem : (placements ps raw)[j] ∈ (placements ps raw).take k :=
      List.mem_take_iff_getElem.2 ⟨j, by omega, rfl⟩
    obtain ⟨b, a, hb⟩ := List.append_of_mem hmem
    have hsplit : placements ps raw = b ++ (placements ps raw)[j] ::
        (a ++ (placements ps raw)[k] :: (placements ps raw).drop (k + 1)) := by
      rw [← List.cons_append, ← List.append_assoc, ← hb]
      exact h
    have hclaim := (hstay.claim hsplit hnames).2.2
    exact (hstay.claim h hnames').2.1 (List.mem_filterMap.2 ⟨_, hmem, hclaim⟩)
  · intro st hst hnames
    obtain ⟨i, hi⟩ := Option.ne_none_iff_exists'.1 hnames
    rw [stretches_eq_map ps raw] at hst
    obtain ⟨pl, hpl, rfl⟩ := List.mem_map.1 hst
    obtain ⟨before, after, h⟩ := List.append_of_mem hpl
    exact (hstay.claim h hi).1
  · intro before pl after i h hnames
    have hclaim := honce.claim h hnames
    have hmem : pl ∈ placements ps raw := by simp [h]
    exact ⟨Or.inl (seat_of_claim hmem hclaim),
      (words_eq_dropLast_iff hnames).2 (by rw [hclaim]; rfl)⟩

/-- The second span behind `--tags` goes to another parameter. -/
theorem repeated_flag_loses_span :
    ¬ ∀ ps raw, Strategy.spanMismatch ps = none → FlaggedSpansStay ps raw := by
  intro h
  let ps := [Parameter.flag "tags" (.set .str), .flag "sizes" (.list .str)]
  let raw := "--tags (a) --tags (b)".toList
  have hplaced : placements ps raw =
      [⟨⟨"--tags ".toList, .round, ['a']⟩, some 0, some 0⟩] ++
        ⟨⟨" --tags ".toList, .round, ['b']⟩, none, some 1⟩ :: [] := by rfl
  have hstay := h ps raw (by decide) _ _ _ 0 hplaced rfl
  simp at hstay

end CommandShell
