import CommandShell.Parse.Names
import CommandShell.Proofs.Parse.InlineFlags
import CommandShell.Proofs.Parse.Surroundings
/-!
# Lines of names and texts

A word that is the long name of a parameter takes the word behind it, if that is no long name.
Both words may hold anything, since they stand in quotes.  A line with one such pair for each
parameter reads every parameter from its own text, in whatever order the pairs stand.

    such pairs are recorded one after the other                          (extractNames_pairWords)
    the parameters are read in their order, each from its text             (names_parse_pairLine)
    so the line gives the values of the texts, or the first error            (named_pairs_parse)
-/

namespace CommandShell

/-- Whether the name of a parameter and a text can stand as a pair: the parameter takes one word,
and the text is no name. -/
structure Pairable (ps : List Parameter) (x : Parameter × String) : Prop where
  long : x.1.long = some x.1.longName
  separate : x.1.joint = false
  free : ∀ p ∈ ps, p.long ≠ some x.2

/-- The words of the pairs: each long name and behind it the text. -/
def pairWords (order : List (Parameter × String)) : List String :=
  order.flatMap fun x => [x.1.longName, x.2]

/-- A line of pairs, each word in quotes. -/
def pairLine (order : List (Parameter × String)) : String :=
  String.ofList (Line.quoted ((pairWords order).map String.toList))

variable {ps : List Parameter} {given order : List (Parameter × String)}

/-! ## Reading the words -/

theorem parameterNamed?_eq_none {word : String} (h : ∀ p ∈ ps, p.long ≠ some word) :
    parameterNamed? ps word = none :=
  List.find?_eq_none.2 fun p hp => by simpa using h p hp

theorem exists_parameterNamed? {p : Parameter} (hp : p ∈ ps) {name : String}
    (hlong : p.long = some name) : ∃ q ∈ ps, parameterNamed? ps name = some q := by
  have hsome : (parameterNamed? ps name).isSome = true :=
    List.find?_isSome.2 ⟨p, hp, by simpa using hlong⟩
  obtain ⟨q, hq⟩ := Option.isSome_iff_exists.1 hsome
  exact ⟨q, List.mem_of_find?_eq_some hq, hq⟩

theorem extractNames_pair (hseparate : ∀ p ∈ ps, p.joint = false) {x : Parameter × String}
    (hmem : x.1 ∈ ps) (hx : Pairable ps x) (e : Extraction) (rest : List String) :
    extractNames ps e (x.1.longName :: x.2 :: rest) =
      extractNames ps (e.withFlag x.1.longName (.text x.2)) rest := by
  obtain ⟨q, hq, hnamed⟩ := exists_parameterNamed? hmem hx.long
  have hfree : parameterNamed? ps x.2 = none := parameterNamed?_eq_none hx.free
  rw [extractNames, hnamed]
  simp only [hseparate q hq, hfree, Option.isNone_none, if_true, Bool.false_eq_true, if_false]

theorem extractNames_pairWords (hseparate : ∀ p ∈ ps, p.joint = false)
    (h : ∀ x ∈ order, x.1 ∈ ps ∧ Pairable ps x) (e : Extraction) :
    extractNames ps e (pairWords order) =
      ⟨Assoc.putAll e.flags (order.map inlinePair), e.leftovers⟩ := by
  induction order generalizing e with
  | nil => rfl
  | cons x order ih =>
    obtain ⟨hx, horder⟩ := List.forall_mem_cons.1 h
    have hwords : pairWords (x :: order) = x.1.longName :: x.2 :: pairWords order := rfl
    rw [hwords, extractNames_pair hseparate hx.1 hx.2]
    exact ih horder _

theorem arguments_pairLine (order : List (Parameter × String)) :
    Line.arguments (pairLine order) = pairWords order := by
  rw [pairLine, Line.arguments_quoted, List.map_map]
  exact (List.map_congr_left fun _ _ => String.ofList_toList).trans (List.map_id _)

/-! ## Reading the parameters -/

/-- The parameters of a line of pairs are read in declaration order, each from its text. -/
theorem names_parse_pairLine (ctx : ParseContext)
    (haccepted : Strategy.names.mismatch (given.map Prod.fst) = none)
    (hpair : ∀ x ∈ given, Pairable (given.map Prod.fst) x)
    (hpreset : ∀ x ∈ given, ctx.presetFor x.1 = none) (horder : order.Perm given) :
    Strategy.names.parse (given.map Prod.fst) (pairLine order) ctx =
      readEach (fun x => coerceFor ctx x.1 (.text x.2)) given := by
  have hnodup : (order.map fun x => x.1.longName).Nodup := by
    rw [(horder.map fun x => x.1.longName).nodup_iff]
    have := nodup_longName (Strategy.distinctFlags_of_mismatch haccepted) fun p hp => by
      obtain ⟨x, hx, rfl⟩ := List.mem_map.1 hp
      exact (hpair x hx).long
    rwa [List.map_map] at this
  have hseparate : ∀ p ∈ given.map Prod.fst, p.joint = false := by
    intro p hp
    obtain ⟨x, hx, rfl⟩ := List.mem_map.1 hp
    exact (hpair x hx).separate
  have hextract : nameExtraction (given.map Prod.fst) (pairLine order) =
      ⟨Assoc.ofPairs (order.map inlinePair), []⟩ := by
    rw [nameExtraction, arguments_pairLine]
    refine extractNames_pairWords hseparate (fun x hx => ?_) .empty
    have hmem := horder.mem_iff.1 hx
    exact ⟨List.mem_map_of_mem hmem, hpair x hmem⟩
  show resolve _ (nameExtraction _ _) .names ctx [] = _
  rw [hextract]
  refine resolve_of_settled fun i x hx => ?_
  have hmem := List.mem_of_getElem? hx
  have hkey : KeyStyle.names.isKeyed x.1 = true := by
    rw [KeyStyle.isKeyed, (hpair x hmem).long]
    rfl
  exact fillOne_of_lookup [] (hpreset x hmem) hkey
    (lookup_inlinePairs hnodup (horder.mem_iff.2 hmem) (hpair x hmem).long)

/-- What is read from one text for each parameter: the values of the texts, or the error of the
first parameter whose text is none. -/
theorem readEach_coerceFor (ctx : ParseContext) (given : List (Parameter × String)) :
    (∀ values, List.Forall₂
        (fun x v => ctx.coercions.coerce x.1.type (.text x.2) = .ok v) given values →
      readEach (fun x => coerceFor ctx x.1 (.text x.2)) given = .ok values) ∧
    ∀ before p text after cause, given = before ++ (p, text) :: after →
      (∀ x ∈ before, ∃ v, ctx.coercions.coerce x.1.type (.text x.2) = .ok v) →
      ctx.coercions.coerce p.type (.text text) = .error cause →
      readEach (fun x => coerceFor ctx x.1 (.text x.2)) given =
        .error (.coercion p.label cause) := by
  constructor
  · intro values hvalues
    rw [readEach_eq_ok_iff]
    induction hvalues with
    | nil => rfl
    | cons hv _ ih => rw [List.map_cons, List.map_cons, ih, coerceFor, hv]
  · rintro before p text after cause rfl hbefore hcause
    exact readEach_append_error (fun x hx => by
      obtain ⟨v, hv⟩ := hbefore x hx
      exact ⟨v, by rw [coerceFor, hv]⟩) (by rw [coerceFor, hcause])

/-- **A line of names and texts, one pair for each parameter in any order, gives the values of the
texts, or the error of the first parameter in declaration order whose text is no value.** -/
theorem named_pairs_parse (ctx : ParseContext)
    (haccepted : Strategy.names.mismatch (given.map Prod.fst) = none)
    (hpair : ∀ x ∈ given, Pairable (given.map Prod.fst) x)
    (htype : ∀ x ∈ given, x.1.type.isAmbient = false) (horder : order.Perm given) :
    (∀ values, List.Forall₂
        (fun x v => ctx.coercions.coerce x.1.type (.text x.2) = .ok v) given values →
      Strategy.names.parse (given.map Prod.fst) (pairLine order) ctx = .ok values) ∧
    ∀ before p text after cause, given = before ++ (p, text) :: after →
      (∀ x ∈ before, ∃ v, ctx.coercions.coerce x.1.type (.text x.2) = .ok v) →
      ctx.coercions.coerce p.type (.text text) = .error cause →
      Strategy.names.parse (given.map Prod.fst) (pairLine order) ctx =
        .error (.coercion p.label cause) := by
  have hpreset : ∀ x ∈ given, ctx.presetFor x.1 = none :=
    fun x hx => presetFor_of_not_ambient (htype x hx) ctx
  rw [names_parse_pairLine ctx haccepted hpair hpreset horder]
  exact readEach_coerceFor ctx given

/-- Names with a blank and with dashes, texts with blanks, quotes and dashes and with nothing. -/
theorem named_pairs_parse_backwards :
    let all := { Parameter.flag "all" (.list .int) with required := true }
    let say := { Parameter.flag "say it" .str with short := some 'a' }
    let on := Parameter.flag "--on" .bool
    let parse := fun raw =>
      Strategy.names.parse [all, say, on] raw ⟨.builtin, fun _ => none, .asFilled⟩
    (Strategy.names.mismatch [all, say, on] = none ∧
      (∀ p ∈ [all, say, on], p.long = some p.longName ∧ p.joint = false ∧
        p.type.isAmbient = false)) ∧
    parse "\"--on\" \"no\" \"say it\" \"-all \\\"[\\\" \\\\ \" \"all\" \"[1, 2]\"" =
      .ok [.list [.int 1, .int 2], .str "-all \"[\" \\ ", .bool false] ∧
    parse "\"--on\" \"\" \"say it\" \"\" \"all\" \"[1,x]\"" =
      .error (.coercion "--all" (.invalid "int" "x")) := by
  intro all say on parse
  have haccepted : Strategy.names.mismatch [all, say, on] = none := by decide
  have hplain : ∀ p ∈ [all, say, on], p.long = some p.longName ∧ p.joint = false ∧
      p.type.isAmbient = false := by decide
  have hgiven (a b c : String)
      (hfree : ∀ text ∈ [a, b, c], ∀ p ∈ [all, say, on], p.long ≠ some text) :=
    @named_pairs_parse [(all, a), (say, b), (on, c)] [(on, c), (say, b), (all, a)]
      ⟨.builtin, fun _ => none, .asFilled⟩ haccepted
      (fun x hx =>
        have h := hplain x.1 (List.mem_map_of_mem hx)
        ⟨h.1, h.2.1, hfree x.2 (List.mem_map_of_mem hx)⟩)
      (fun x hx => (hplain x.1 (List.mem_map_of_mem hx)).2.2) (List.reverse_perm [_, _, _])
  have hline₁ : "\"--on\" \"no\" \"say it\" \"-all \\\"[\\\" \\\\ \" \"all\" \"[1, 2]\"" =
      pairLine [(on, "no"), (say, "-all \"[\" \\ "), (all, "[1, 2]")] := by decide
  have hline₂ : "\"--on\" \"\" \"say it\" \"\" \"all\" \"[1,x]\"" =
      pairLine [(on, ""), (say, ""), (all, "[1,x]")] := by decide
  have hlist : Coercions.builtin.coerce (.list .int) (.text "[1, 2]") =
      .ok (.list [.int 1, .int 2]) := rfl
  have hno : Coercions.builtin.coerce .bool (.text "no") = .ok (.bool false) := by
    have hread : Literal.readBool? "no".toList = some false := by decide
    show Coercions.readBool "no" = _
    rw [Coercions.readBool, hread]
  have hbad : Coercions.builtin.coerce (.list .int) (.text "[1,x]") =
      .error (.invalid "int" "x") := rfl
  refine ⟨⟨haccepted, hplain⟩, ?_, ?_⟩
  · rw [hline₁]
    exact (hgiven _ _ _ (by decide)).1 _ (.cons hlist (.cons rfl (.cons hno .nil)))
  · rw [hline₂]
    exact (hgiven _ _ _ (by decide)).2 [] _ _ _ _ rfl (fun x hx => by cases hx) hbad

end CommandShell
