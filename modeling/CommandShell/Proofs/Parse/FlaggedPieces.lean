import CommandShell.Proofs.Parse.FlagUse
import CommandShell.Proofs.Parse.InlineFlags
import CommandShell.Proofs.Parse.Pieces
import CommandShell.Proofs.Parse.Soundness
import CommandShell.Proofs.Parse.SpanBinding
/-!
# Lines of inline flags and flagged literals

A text is said by a quoted word `--name=text`, a collection by a quoted flag and a literal of
quoted items.  A line that says something for every parameter gives exactly these values, in
whatever order it says them and whatever the strings hold: each literal is bound to the parameter
that its flag names, and what is left of the line are the inline flags.

    before each literal of such a line stands the flag of its parameter   (names?_said)
    no parameter is named twice, so every literal stays with its flag      (namedOnce_said)
    the words left are the inline flags                                    (words_said)
    the line gives what was said                                           (flagged_pieces_parse)
-/

namespace CommandShell

open CommandShell.Text CommandShell.Line CommandShell.Literal

/-- What a line says for a parameter: a text, or the items of a collection. -/
inductive Said where
  | text (t : String)
  | items (xs : List String)

namespace Said

/-- Texts are for strings, and items for collections of strings. -/
def Fits : Said → ValueType → Prop
  | text _, type => type = .str
  | items _, type => type = .list .str ∨ type = .array .str ∨ type = .set .str

/-- The value that is said; a set holds of equal items the first. -/
def value : ValueType → Said → Value
  | _, text t => .str t
  | .set _, items xs => .set (xs.eraseDups.map .str)
  | _, items xs => .list (xs.map .str)

/-- How a line says it. -/
def piece (x : Parameter × Said) : Piece :=
  match x.2 with
  | text t => .word (inlineFlag (x.1, t))
  | items xs => .literal x.1.longName.toList (xs.map String.toList)

/-- The inline flag, if a text is said. -/
def inline? (x : Parameter × Said) : Option (Parameter × String) :=
  match x.2 with
  | text t => some (x.1, t)
  | items _ => none

/-- The literal and the flag before it, if items are said. -/
def literal? (x : Parameter × Said) : Option (Option (List Char) × Collection) :=
  match x.2 with
  | text _ => none
  | items xs => some (some (Piece.flag x.1.longName.toList), ⟨.square, xs⟩)

end Said

/-! ## Values of what is said -/

theorem isAmong_strings (x : String) (kept : List String) :
    (Value.str x).isAmong (kept.map .str) = decide (x ∈ kept) := by
  induction kept with
  | nil => rfl
  | cons k kept ih =>
    have hbeq : Value.beq (.str k) (.str x) = decide (k = x) := rfl
    unfold Value.isAmong at ih ⊢
    rw [List.map_cons, List.any_cons, hbeq, ih]
    simp [eq_comm]

theorem distinctFrom_strings (kept xs : List String) :
    Value.distinctFrom (kept.map .str) (xs.map .str) =
      ((xs.filter fun x => x ∉ kept).eraseDups).map .str := by
  induction xs generalizing kept with
  | nil => rfl
  | cons x xs ih =>
    rw [List.map_cons, Value.distinctFrom, isAmong_strings, List.filter_cons]
    by_cases hx : x ∈ kept
    · simp only [hx, decide_true, if_true, not_true, decide_false, Bool.false_eq_true, if_false]
      exact ih kept
    · simp only [hx, decide_false, Bool.false_eq_true, if_false, not_false_eq_true, decide_true,
        if_true]
      have hih := ih (kept ++ [x])
      rw [List.map_append, List.map_singleton] at hih
      rw [hih, List.eraseDups_cons, List.map_cons, List.filter_filter]
      congr 3
      exact List.filter_congr fun y _ => by rw [Bool.eq_iff_iff]; simp [and_comm]

theorem distinct_strings (xs : List String) :
    Value.distinct (xs.map .str) = xs.eraseDups.map .str := by
  have := distinctFrom_strings [] xs
  simpa [Value.distinct] using this

theorem read_string {ctx : ParseContext} (hcustom : ctx.coercions.custom = []) (s : String) :
    ctx.coercions.coerce .str (.text s) = .ok (.str s) := by
  rw [Coercions.coerce, hcustom]
  rfl

theorem convert_items {ctx : ParseContext} (hcustom : ctx.coercions.custom = []) {type : ValueType}
    {xs : List String} (hfits : (Said.items xs).Fits type) :
    ctx.coercions.convert ⟨.square, xs⟩ type = .ok ((Said.items xs).value type) := by
  have hvalues : Collection.values ⟨.square, xs⟩ (ctx.coercions.read .str) = .ok (xs.map .str) := by
    have helement : xs.map (Collection.elementText .square) = xs := List.map_id' xs
    rw [Collection.values, helement, readEach_eq_ok_iff, List.map_map]
    exact List.map_congr_left fun x _ => read_string hcustom x
  rcases hfits with rfl | rfl | rfl
  · rw [Coercions.convert, Coercions.listOf, hvalues]
    rfl
  · rw [Coercions.convert, Coercions.listOf, hvalues]
    rfl
  · rw [Coercions.convert, Coercions.setOf, Collection.distinctValues, hvalues]
    show Except.ok (Value.set (Value.distinct (xs.map .str))) = _
    rw [distinct_strings]
    rfl

/-! ## Flags that name their parameters -/

theorem nameIn_flag {p : Parameter} (h : Addressed p) :
    Stretch.nameIn (Piece.flag p.longName.toList) = p.longName := by
  have hname : flagName (unquote (Piece.flag p.longName.toList)) = p.longName.toList := by
    rw [Piece.flag, unquote_doubleQuoted]
    rfl
  have hlast : p.longName.toList.getLast? ≠ some '=' := fun he =>
    h.plain (List.mem_of_getLast? he)
  rw [Stretch.nameIn, hname, if_neg hlast, String.ofList_toList]

theorem flag_injective {name name' : String}
    (h : Piece.flag name.toList = Piece.flag name'.toList) : name = name' := by
  have hword := congrArg unquote h
  rw [Piece.flag, Piece.flag, unquote_doubleQuoted, unquote_doubleQuoted, List.cons.injEq,
    List.cons.injEq] at hword
  exact String.toList_injective hword.2.2

theorem isCollection_of_fits {xs : List String} {type : ValueType}
    (h : (Said.items xs).Fits type) : type.isCollection = true := by
  rcases h with rfl | rfl | rfl <;> rfl

/-- What the scanner makes of the line. -/
theorem readAs_said (order : List (Parameter × Said)) :
    ReadAs (stretches (Piece.joined (order.map Said.piece))) (order.filterMap Said.literal?)
      ((order.filterMap Said.inline?).map inlineFlag) := by
  have hread := stretches_pieces (order.map Said.piece)
  have hliteral : ∀ x : Parameter × Said, (Said.piece x).literal? = Said.literal? x := by
    intro x
    obtain ⟨p, said⟩ := x
    cases said with
    | text t => rfl
    | items xs => simp [Said.piece, Said.literal?, Piece.literal?, Function.comp_def]
  have hword : ∀ x : Parameter × Said, (Said.piece x).word? = (Said.inline? x).map inlineFlag := by
    intro x
    obtain ⟨p, said⟩ := x
    cases said <;> rfl
  rw [List.filterMap_map, List.filterMap_map] at hread
  rw [List.map_filterMap]
  simpa only [Function.comp_def, hliteral, hword] using hread

/-- A line that says something for every parameter, and the parameters it is for. -/
structure SaysAll (given order : List (Parameter × Said)) : Prop where
  distinct : Strategy.DistinctFlags (given.map Prod.fst)
  addressed : ∀ x ∈ given, Addressed x.1
  fits : ∀ x ∈ given, x.2.Fits x.1.type
  order : order.Perm given

namespace SaysAll

variable {given order : List (Parameter × Said)} (h : SaysAll given order)

include h

theorem namedBy?_flag {i : Nat} {x : Parameter × Said} {xs : List String} (hx : given[i]? = some x)
    (hsaid : x.2 = .items xs) :
    Stretch.namedBy? (given.map Prod.fst) (Piece.flag x.1.longName.toList) = some i := by
  have hmem := List.mem_of_getElem? hx
  have hp : (given.map Prod.fst)[i]? = some x.1 := by rw [List.getElem?_map, hx]; rfl
  have haddressed := h.addressed x hmem
  have hcollects := isCollection_of_fits (hsaid ▸ h.fits x hmem)
  rw [Stretch.namedBy?, nameIn_flag haddressed,
    position?_long h.distinct hp haddressed.long, Option.filter_some, if_pos]
  rw [hp]
  exact hcollects

theorem nodup_longName_order : (order.map fun x => x.1.longName).Nodup := by
  rw [(h.order.map fun x => x.1.longName).nodup_iff]
  have hnodup := nodup_longName h.distinct fun p hp => by
    obtain ⟨x, hx, rfl⟩ := List.mem_map.1 hp
    exact (h.addressed x hx).long
  rwa [List.map_map] at hnodup

/-- Every span is a literal that is said, behind the flag of its parameter. -/
theorem names?_said {st : Stretch}
    (hst : st ∈ (stretches (Piece.joined (order.map Said.piece))).1) :
    ∃ i x xs, given[i]? = some x ∧ x.2 = .items xs ∧
      st.flag? = some (Piece.flag x.1.longName.toList) ∧ st.literal = ⟨.square, xs⟩ ∧
      st.names? (given.map Prod.fst) = some i := by
  have hmem : (st.flag?, st.literal) ∈ order.filterMap Said.literal? := by
    rw [← (readAs_said order).1]
    exact List.mem_map_of_mem hst
  obtain ⟨x, hx, hsaid⟩ := List.mem_filterMap.1 hmem
  obtain ⟨i, hi⟩ := List.getElem?_of_mem (h.order.mem_iff.1 hx)
  obtain ⟨p, said⟩ := x
  cases said with
  | text t => cases hsaid
  | items xs =>
    have hpair := Option.some.inj hsaid
    rw [Prod.mk.injEq] at hpair
    refine ⟨i, (p, .items xs), xs, hi, rfl, hpair.1.symm, hpair.2.symm, ?_⟩
    rw [Stretch.names?, ← hpair.1]
    exact h.namedBy?_flag hi rfl

theorem namedOnce_said :
    NamedOnce (given.map Prod.fst) (Piece.joined (order.map Said.piece)) := by
  constructor
  · have hflags : (stretches (Piece.joined (order.map Said.piece))).1.Pairwise
        fun st st' => st.flag? ≠ st'.flag? := by
      have hpairs : (order.filterMap Said.literal?).Pairwise fun a b => a.1 ≠ b.1 := by
        refine List.Pairwise.filterMap Said.literal? ?_ (List.pairwise_map.1 h.nodup_longName_order)
        intro x y hne a ha b hb he
        obtain ⟨p, said⟩ := x
        obtain ⟨q, said'⟩ := y
        cases said with
        | text t => cases ha
        | items xs =>
          cases said' with
          | text t => cases hb
          | items ys =>
            cases ha
            cases hb
            exact hne (flag_injective (Option.some.inj he))
      rw [← (readAs_said order).1, List.pairwise_map] at hpairs
      exact hpairs
    refine hflags.imp_of_mem fun hst hst' hne i hi hi' => ?_
    obtain ⟨j, x, xs, hx, -, hflag, -, hj⟩ := h.names?_said hst
    obtain ⟨k, y, ys, hy, -, hflag', -, hk⟩ := h.names?_said hst'
    obtain rfl : j = i := Option.some.inj (hj.symm.trans hi)
    obtain rfl : k = j := Option.some.inj (hk.symm.trans hi')
    obtain rfl : x = y := Option.some.inj (hx.symm.trans hy)
    exact hne (hflag.trans hflag'.symm)
  · intro st hst _
    obtain ⟨i, x, xs, -, -, hflag, -⟩ := h.names?_said hst
    rw [Stretch.endsInBlank, hflag, Option.any_some, Piece.flag, doubleQuoted, List.getLast?_concat]
    rfl

/-- Where the spans go: each to the parameter that it is said for. -/
theorem seat_said {pl : Placement}
    (hpl : pl ∈ placements (given.map Prod.fst) (Piece.joined (order.map Said.piece))) :
    ∃ i x xs, given[i]? = some x ∧ x.2 = .items xs ∧ pl.stretch.literal = ⟨.square, xs⟩ ∧
      pl.stretch.names? (given.map Prod.fst) = some i ∧ pl.claim = some i ∧ pl.seat = some i := by
  have hst : pl.stretch ∈ (stretches (Piece.joined (order.map Said.piece))).1 := by
    rw [stretches_eq_map (given.map Prod.fst)]
    exact List.mem_map_of_mem hpl
  obtain ⟨i, x, xs, hx, hsaid, -, hliteral, hnames⟩ := h.names?_said hst
  obtain ⟨before, after, hsplit⟩ := List.append_of_mem hpl
  have hclaim := h.namedOnce_said.claim hsplit hnames
  exact ⟨i, x, xs, hx, hsaid, hliteral, hnames, hclaim, seat_of_claim hpl hclaim⟩

/-- The words that are left are the inline flags. -/
theorem words_said :
    words (bindSpans (given.map Prod.fst) (Piece.joined (order.map Said.piece))).2 =
      (order.filterMap Said.inline?).map inlineFlag := by
  have hplaced : (placements (given.map Prod.fst)
      (Piece.joined (order.map Said.piece))).flatMap Placement.words =
        (stretches (Piece.joined (order.map Said.piece))).1.flatMap
          fun st => (words st.before).dropLast := by
    rw [stretches_eq_map (given.map Prod.fst), List.flatMap_map]
    refine List.flatMap_congr fun pl hpl => ?_
    obtain ⟨i, x, xs, -, -, -, hnames, hclaim, -⟩ := h.seat_said hpl
    exact (words_eq_dropLast_iff hnames).2 (by rw [hclaim]; rfl)
  rw [words_bindSpans, hplaced]
  exact (readAs_said order).2

/-- The literals that the parameters are bound to. -/
theorem bound_said {i : Nat} {x : Parameter × Said} (hx : given[i]? = some x) :
    Assoc.get? i (bindSpans (given.map Prod.fst) (Piece.joined (order.map Said.piece))).1 =
      match x.2 with
      | .text _ => none
      | .items xs => some ⟨.square, xs⟩ := by
  cases hsaid : x.2 with
  | text t =>
    rw [Option.eq_none_iff_forall_ne_some]
    intro literal hliteral
    obtain ⟨pl, hpl, hseat, -⟩ := (get?_bindSpans_iff _ _ i literal).1 hliteral
    obtain ⟨j, y, ys, hy, hsaid', -, -, -, hseat'⟩ := h.seat_said hpl
    obtain rfl : j = i := Option.some.inj (hseat'.symm.trans hseat)
    obtain rfl : y = x := Option.some.inj (hy.symm.trans hx)
    cases hsaid.symm.trans hsaid'
  | items xs =>
    have hmem : (some (Piece.flag x.1.longName.toList), (⟨.square, xs⟩ : Collection)) ∈
        order.filterMap Said.literal? := by
      refine List.mem_filterMap.2 ⟨x, h.order.mem_iff.2 (List.mem_of_getElem? hx), ?_⟩
      rw [Said.literal?, hsaid]
    rw [← (readAs_said order).1, List.mem_map] at hmem
    obtain ⟨st, hst, he⟩ := hmem
    rw [Prod.mk.injEq] at he
    rw [stretches_eq_map (given.map Prod.fst), List.mem_map] at hst
    obtain ⟨pl, hpl, rfl⟩ := hst
    obtain ⟨j, y, ys, hy, -, -, hnames, -, hseat⟩ := h.seat_said hpl
    have hnames' : pl.stretch.names? (given.map Prod.fst) = some i := by
      rw [Stretch.names?, he.1]
      exact h.namedBy?_flag hx hsaid
    obtain rfl : j = i := Option.some.inj (hnames.symm.trans hnames')
    exact (get?_bindSpans_iff _ _ j _).2 ⟨pl, hpl, hseat, he.2⟩

/-- The literals convert to the values said. -/
theorem prefill_said {ctx : ParseContext} (hcustom : ctx.coercions.custom = []) :
    ∃ prefilled, prefill ctx (given.map Prod.fst)
        (bindSpans (given.map Prod.fst) (Piece.joined (order.map Said.piece))).1 = .ok prefilled ∧
      ∀ i x, given[i]? = some x → Assoc.get? i prefilled =
        match x.2 with
        | .text _ => none
        | .items xs => some ((Said.items xs).value x.1.type) := by
  have hkeys := nodup_bindSpans (given.map Prod.fst) (Piece.joined (order.map Said.piece))
  obtain ⟨prefilled, hprefilled⟩ : ∃ prefilled, prefill ctx (given.map Prod.fst)
      (bindSpans (given.map Prod.fst) (Piece.joined (order.map Said.piece))).1 = .ok prefilled := by
    refine exists_prefill_iff.2 ?_
    rintro _ ⟨i, p, literal, cause, hmem, hp, hcause, rfl⟩
    obtain ⟨x, hx, rfl⟩ : ∃ x, given[i]? = some x ∧ x.1 = p := by
      rw [List.getElem?_map] at hp
      exact Option.map_eq_some_iff.1 hp
    have hliteral := (h.bound_said hx).symm.trans (Assoc.get?_of_mem hkeys hmem)
    have hfits := h.fits x (List.mem_of_getElem? hx)
    cases hsaid : x.2 with
    | text t =>
      rw [hsaid] at hliteral
      cases hliteral
    | items xs =>
      rw [hsaid] at hliteral hfits
      cases hliteral
      cases hcause.symm.trans (convert_items hcustom hfits)
  refine ⟨prefilled, hprefilled, fun i x hx => ?_⟩
  have hp : (given.map Prod.fst)[i]? = some x.1 := by rw [List.getElem?_map, hx]; rfl
  have hbound := h.bound_said hx
  have hfits := h.fits x (List.mem_of_getElem? hx)
  rcases prefill_ok hkeys hprefilled hp with ⟨hnone, hpre⟩ | ⟨literal, v, hsome, hpre, hconvert⟩
  · cases hsaid : x.2 with
    | text t => exact hpre
    | items xs => rw [hnone, hsaid] at hbound; cases hbound
  · cases hsaid : x.2 with
    | text t => rw [hsome, hsaid] at hbound; cases hbound
    | items xs =>
      rw [hsome, hsaid] at hbound
      rw [hsaid] at hfits
      cases hbound
      rw [convert_items hcustom hfits] at hconvert
      cases hconvert
      exact hpre

/-- A parameter that is given a text finds it behind its flag. -/
theorem lookup_said {x : Parameter × Said} {t : String} (hx : x ∈ given) (hsaid : x.2 = .text t) :
    KeyStyle.flags.lookup x.1
      (Assoc.ofPairs ((order.filterMap Said.inline?).map inlinePair)) = some (.text t) := by
  have hinline : (x.1, t) ∈ order.filterMap Said.inline? := by
    refine List.mem_filterMap.2 ⟨x, h.order.mem_iff.2 hx, ?_⟩
    rw [Said.inline?, hsaid]
  have hnodup : ((order.filterMap Said.inline?).map fun y => y.1.longName).Nodup := by
    refine List.pairwise_map.2 ?_
    refine List.Pairwise.filterMap Said.inline? ?_ (List.pairwise_map.1 h.nodup_longName_order)
    intro x y hne a ha b hb he
    obtain ⟨p, said⟩ := x
    obtain ⟨q, said'⟩ := y
    cases said with
    | items xs => cases ha
    | text t =>
      cases said' with
      | items ys => cases hb
      | text t' =>
        cases ha
        cases hb
        exact hne he
  exact lookup_inlinePairs hnodup hinline (h.addressed x hx).long

theorem fillOne_said {ctx : ParseContext} (hcustom : ctx.coercions.custom = [])
    {prefilled : List (Nat × Value)} {i : Nat} {x : Parameter × Said} (hx : given[i]? = some x)
    (hprefilled : Assoc.get? i prefilled =
      match x.2 with
      | .text _ => none
      | .items xs => some ((Said.items xs).value x.1.type)) :
    fillOne .flags ctx (Assoc.ofPairs ((order.filterMap Said.inline?).map inlinePair)) [] x.1
      (Assoc.get? i prefilled) = .ok (.fixed (x.2.value x.1.type), []) := by
  have hmem := List.mem_of_getElem? hx
  have hfits := h.fits x hmem
  rw [hprefilled]
  cases hsaid : x.2 with
  | items xs => exact fillOne_of_ready []
  | text t =>
    have htype : x.1.type = .str := by rw [hsaid] at hfits; exact hfits
    have hpreset : ctx.presetFor x.1 = none := by rw [ParseContext.presetFor, htype]
    have hkey : KeyStyle.flags.isKeyed x.1 = true := by
      simp [KeyStyle.isKeyed, Parameter.hasFlag, (h.addressed x hmem).long]
    have hcoerce : coerceFor ctx x.1 (.text t) = .ok (.str t) := by
      rw [coerceFor, htype, read_string hcustom]
    dsimp only
    rw [fillOne_of_lookup [] hpreset hkey (h.lookup_said hmem hsaid), hcoerce, htype]
    rfl

theorem parse_said {ctx : ParseContext} (hcustom : ctx.coercions.custom = []) :
    Strategy.spans.parse (given.map Prod.fst)
        (String.ofList (Piece.joined (order.map Said.piece))) ctx =
      .ok (given.map fun x => x.2.value x.1.type) := by
  obtain ⟨prefilled, hconvert, hprefilled⟩ := h.prefill_said hcustom
  have haddressed : ∀ y ∈ order.filterMap Said.inline?, Addressed y.1 := by
    intro y hy
    obtain ⟨x, hx, hsaid⟩ := List.mem_filterMap.1 hy
    obtain ⟨p, said⟩ := x
    cases said with
    | items xs => cases hsaid
    | text t =>
      cases hsaid
      exact h.addressed _ (h.order.mem_iff.1 hx)
  have hextract : flagExtraction (given.map Prod.fst) (String.ofList
      (bindSpans (given.map Prod.fst) (Piece.joined (order.map Said.piece))).2) =
        ⟨Assoc.ofPairs ((order.filterMap Said.inline?).map inlinePair), []⟩ := by
    rw [flagExtraction, Line.arguments, String.toList_ofList, h.words_said, List.map_map]
    exact extractFlags_inlineFlags _ haddressed .empty
  rw [spans_parse_eq, String.toList_ofList, hconvert]
  dsimp only
  rw [hextract]
  have hresolve : resolve (given.map Prod.fst)
      ⟨Assoc.ofPairs ((order.filterMap Said.inline?).map inlinePair), []⟩ .flags ctx prefilled =
        readEach (fun x => .ok (x.2.value x.1.type)) given :=
    resolve_of_settled fun i x hx => h.fillOne_said hcustom hx (hprefilled i x hx)
  refine hresolve.trans ((readEach_eq_ok_iff _ _ _).2 ?_)
  rw [List.map_map]
  rfl

end SaysAll

/-- **A line that says something for every parameter gives what was said, in whatever order it
says it.** -/
theorem flagged_pieces_parse (ctx : ParseContext) {given order : List (Parameter × Said)}
    (hcustom : ctx.coercions.custom = [])
    (haccepted : Strategy.spanMismatch (given.map Prod.fst) = none)
    (haddressed : ∀ x ∈ given, Addressed x.1) (hfits : ∀ x ∈ given, x.2.Fits x.1.type)
    (horder : order.Perm given) :
    Strategy.spans.parse (given.map Prod.fst)
        (String.ofList (Piece.joined (order.map Said.piece))) ctx =
      .ok (given.map fun x => x.2.value x.1.type) := by
  have hflags := (Option.or_eq_none_iff.1 haccepted).1
  have hsays : SaysAll given order :=
    ⟨Strategy.distinctFlags_of_mismatch hflags, haddressed, hfits, horder⟩
  exact hsays.parse_said hcustom

theorem flagged_pieces_parse_backwards :
    let tags := { Parameter.flag "tags" (.set .str) with required := true }
    let say := { Parameter.flag "say it" .str with short := some 't' }
    let more := { Parameter.flag "more" (.array .str) with joint := true }
    let given := [(tags, Said.items ["a,b", "-]\"", "a,b"]), (say, .text "--tags [x]"),
      (more, .items [])]
    Strategy.spanMismatch (given.map Prod.fst) = none ∧
    (∀ x ∈ given, Addressed x.1 ∧ x.2.Fits x.1.type) ∧
    Strategy.spans.parse [tags, say, more]
        "\"--more\" [] \"--say it=--tags [x]\" \"--tags\" [\"a,b\",\"-]\\\"\",\"a,b\"]"
        ⟨.builtin, fun _ => none, .asFilled⟩ =
      .ok [.set [.str "a,b", .str "-]\""], .str "--tags [x]", .list []] := by
  intro tags say more given
  have haccepted : Strategy.spanMismatch (given.map Prod.fst) = none := by decide
  have hgiven : ∀ x ∈ given, Addressed x.1 ∧ x.2.Fits x.1.type := by
    intro x hx
    simp only [given, List.mem_cons, List.not_mem_nil, or_false] at hx
    rcases hx with rfl | rfl | rfl
    · exact ⟨⟨rfl, by decide, by decide⟩, Or.inr (Or.inr rfl)⟩
    · exact ⟨⟨rfl, by decide, by decide⟩, rfl⟩
    · exact ⟨⟨rfl, by decide, by decide⟩, Or.inr (Or.inl rfl)⟩
  have hparse := flagged_pieces_parse ⟨.builtin, fun _ => none, .asFilled⟩ rfl haccepted
    (fun x hx => (hgiven x hx).1) (fun x hx => (hgiven x hx).2) (List.reverse_perm given)
  have hline : "\"--more\" [] \"--say it=--tags [x]\" \"--tags\" [\"a,b\",\"-]\\\"\",\"a,b\"]" =
      String.ofList (Piece.joined (given.reverse.map Said.piece)) := by decide
  have hvalues : (given.map fun x => x.2.value x.1.type) =
      [.set [.str "a,b", .str "-]\""], .str "--tags [x]", .list []] := by rfl
  rw [hvalues, ← hline] at hparse
  exact ⟨haccepted, hgiven, hparse⟩

end CommandShell
