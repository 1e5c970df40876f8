import CommandShell.Parse.Flags
import CommandShell.Proofs.Line.Spelling
import Mathlib.Data.List.Basic
/-!
# Lines that give every parameter its value

A word `--name=text` in quotes gives the parameter with that long name its text, whatever the text
holds.  A line with one such word for each parameter leaves nothing to presets, defaults and
leftovers, so every parameter is read from its own text and the order of the words is of no
matter.

    a word --name=text is read as the name and the text                (ofWord_inlineFlag)
    such words give the pairs of their names and texts, put in turn    (extractFlags_inlineFlags)
    where nothing is left over and each parameter is settled by itself, `resolve` reads one
    parameter after the other                                          (resolve_of_settled)
    a line of such words, one for each parameter in any order, gives the values of the texts
                                                                       (inline_flags_parse)
-/

namespace CommandShell

open CommandShell.Literal

/-- The long name of a parameter, empty if it has none. -/
def Parameter.longName (p : Parameter) : String := p.long.getD ""

/-- Whether a word `--name=text` can address the parameter. -/
structure Addressed (p : Parameter) : Prop where
  long : p.long = some p.longName
  nonempty : p.longName ≠ ""
  plain : '=' ∉ p.longName.toList

/-- The word that gives a parameter a text. -/
def inlineFlag (x : Parameter × String) : List Char :=
  '-' :: '-' :: x.1.longName.toList ++ '=' :: x.2.toList

/-- What is recorded for such a word. -/
def inlinePair (x : Parameter × String) : String × Given := (x.1.longName, .text x.2)

/-! ## Reading the words -/

/-- Two dashes never begin a number. -/
theorem looksLikeFlag_dashes (s : List Char) : looksLikeFlag ('-' :: '-' :: s) = true := rfl

theorem ofWord_inlineFlag (ps : List Parameter) {x : Parameter × String} (h : Addressed x.1) :
    FlagWord.ofWord ps (String.ofList (inlineFlag x)) = .inline x.1.longName x.2 := by
  have hname : x.1.longName.toList ≠ [] := fun he => h.nonempty (String.toList_eq_nil_iff.1 he)
  have hinline : FlagWord.inline? (x.1.longName.toList ++ '=' :: x.2.toList) =
      some (x.1.longName, x.2) := by
    rw [FlagWord.inline?, Text.cutAt_append h.plain]
    simp [hname]
  rw [FlagWord.ofWord, String.toList_ofList, inlineFlag, List.cons_append, List.cons_append,
    if_pos (looksLikeFlag_dashes _)]
  simp only [flagName, hinline]
  rw [if_neg (by simp [hname])]

theorem extractFlags_inlineFlags (ps : List Parameter) {order : List (Parameter × String)}
    (h : ∀ x ∈ order, Addressed x.1) (e : Extraction) :
    extractFlags ps e (order.map fun x => String.ofList (inlineFlag x)) =
      ⟨Assoc.putAll e.flags (order.map inlinePair), e.leftovers⟩ := by
  induction order generalizing e with
  | nil => rfl
  | cons x order ih =>
    rw [List.map_cons, extractFlags, ofWord_inlineFlag ps (h x List.mem_cons_self)]
    exact ih (fun y hy => h y (List.mem_cons_of_mem _ hy)) _

theorem nodup_longName {ps : List Parameter} (hd : Strategy.DistinctFlags ps)
    (h : ∀ p ∈ ps, p.long = some p.longName) : (ps.map Parameter.longName).Nodup := by
  rw [List.Nodup, List.pairwise_map]
  refine hd.longs.imp_of_mem fun hp hq hne he => ?_
  exact hne _ (h _ hp) (he ▸ h _ hq)

/-- Each parameter finds the text of its own word. -/
theorem lookup_inlinePairs {style : KeyStyle} {order : List (Parameter × String)}
    {x : Parameter × String} (hnodup : (order.map fun x => x.1.longName).Nodup) (hx : x ∈ order)
    (h : x.1.long = some x.1.longName) :
    style.lookup x.1 (Assoc.ofPairs (order.map inlinePair)) = some (.text x.2) := by
  have hkeys : (Assoc.keys (order.map inlinePair)).Nodup := by
    rw [Assoc.keys, List.map_map]
    exact hnodup
  have hget : Assoc.get? x.1.longName (Assoc.ofPairs (order.map inlinePair)) =
      some (.text x.2) := by
    rw [(Assoc.ofPairs_eq_self_iff _).2 hkeys]
    exact Assoc.get?_of_mem hkeys (List.mem_map.2 ⟨x, hx, rfl⟩)
  cases style <;> simp [KeyStyle.lookup, h, hget]

/-! ## Parameters that are settled one by one -/

/-- Reading stops at the first item that fails. -/
theorem readEach_append_error {α β ε : Type} {read : α → Except ε β} {before after : List α}
    {a : α} {e : ε} (hbefore : ∀ b ∈ before, ∃ v, read b = .ok v) (ha : read a = .error e) :
    readEach read (before ++ a :: after) = .error e := by
  induction before with
  | nil => rw [List.nil_append, readEach, ha]
  | cons b before ih =>
    obtain ⟨v, hv⟩ := hbefore b List.mem_cons_self
    rw [List.cons_append, readEach, hv, ih fun c hc => hbefore c (List.mem_cons_of_mem _ hc)]

section Settled

variable {α : Type} {param : α → Parameter} {read : α → Except ParseFailure Value}
variable {style : KeyStyle} {ctx : ParseContext} {prefilled : List (Nat × Value)}
variable {found : List (String × Given)}

theorem fillOne_of_ready (leftovers : List String) {p : Parameter} {v : Value} :
    fillOne style ctx found leftovers p (some v) = .ok (.fixed v, leftovers) := rfl

theorem fillOne_of_lookup (leftovers : List String) {p : Parameter} {given : Given}
    (hpreset : ctx.presetFor p = none) (hkey : style.isKeyed p = true)
    (hlookup : style.lookup p found = some given) :
    fillOne style ctx found leftovers p none =
      (coerceFor ctx p given).map fun v => (.fixed v, leftovers) := by
  rw [fillOne, hpreset, Option.or_none]
  simp only [hkey, if_true, hlookup]

/-- Parameters that take no leftovers are read one after the other. -/
theorem fillAll_of_settled {xs : List α} {position : Nat} {leftovers : List String}
    (h : ∀ i x, xs[i]? = some x →
      fillOne style ctx found leftovers (param x) (Assoc.get? (position + i) prefilled) =
        (read x).map fun v => (.fixed v, leftovers)) :
    fillAll style ctx prefilled found position leftovers (xs.map param) =
      (readEach read xs).map fun vs => (vs.map .fixed, leftovers) := by
  induction xs generalizing position with
  | nil => rfl
  | cons x xs ih =>
    have hx := h 0 x rfl
    have hxs := ih fun i y hy => by
      rw [Nat.add_assoc, Nat.add_comm 1 i]
      exact h (i + 1) y hy
    rw [Nat.add_zero] at hx
    rw [List.map_cons, fillAll, hx, readEach]
    cases read x with
    | error e => rfl
    | ok v =>
      dsimp only [Except.map]
      rw [hxs]
      cases readEach read xs with
      | error e => rfl
      | ok vs => rfl

theorem resolve_of_settled {xs : List α}
    (h : ∀ i x, xs[i]? = some x →
      fillOne style ctx found [] (param x) (Assoc.get? i prefilled) =
        (read x).map fun v => (.fixed v, [])) :
    resolve (xs.map param) ⟨found, []⟩ style ctx prefilled = readEach read xs := by
  have hfill : fillAll style ctx prefilled found 0 [] (xs.map param) =
      (readEach read xs).map fun vs => (vs.map .fixed, []) :=
    fillAll_of_settled fun i x hx => by
      rw [Nat.zero_add]
      exact h i x hx
  rw [resolve, hfill]
  cases readEach read xs with
  | error e => rfl
  | ok vs =>
    have hvalues : (vs.map Slot.fixed).map (·.value) = vs := by
      rw [List.map_map]
      exact List.map_id' vs
    dsimp only [Except.map]
    rw [hvalues]
    -- without leftovers the second pass changes nothing, whoever is in it
    cases backfillOrder (xs.map param) (vs.map .fixed) with
    | nil => rfl
    | cons x order => rfl

end Settled

/-! ## One word for each parameter -/

theorem flagExtraction_inlineFlags (ps : List Parameter) {order : List (Parameter × String)}
    (h : ∀ x ∈ order, Addressed x.1) :
    flagExtraction ps (String.ofList (Line.quoted (order.map inlineFlag))) =
      ⟨Assoc.ofPairs (order.map inlinePair), []⟩ := by
  rw [flagExtraction, Line.arguments_quoted, List.map_map]
  exact extractFlags_inlineFlags ps h .empty

/-- The parameters of a line of inline flags are read in declaration order, each from its text. -/
theorem flags_parse_inlineFlags (ctx : ParseContext) {given order : List (Parameter × String)}
    (haccepted : Strategy.flagMismatch (given.map Prod.fst) = none)
    (haddressed : ∀ x ∈ given, Addressed x.1) (hpreset : ∀ x ∈ given, ctx.presetFor x.1 = none)
    (horder : order.Perm given) :
    Strategy.flags.parse (given.map Prod.fst)
        (String.ofList (Line.quoted (order.map inlineFlag))) ctx =
      readEach (fun x => coerceFor ctx x.1 (.text x.2)) given := by
  have hd := Strategy.distinctFlags_of_mismatch haccepted
  have hnodup : (order.map fun x => x.1.longName).Nodup := by
    rw [(horder.map fun x => x.1.longName).nodup_iff]
    have := nodup_longName hd fun p hp => by
      obtain ⟨x, hx, rfl⟩ := List.mem_map.1 hp
      exact (haddressed x hx).long
    rwa [List.map_map] at this
  have hextract := flagExtraction_inlineFlags (given.map Prod.fst) fun x hx =>
    haddressed x (horder.mem_iff.1 hx)
  show resolve _ (flagExtraction _ _) .flags ctx [] = _
  rw [hextract]
  refine resolve_of_settled fun i x hx => ?_
  have hmem := List.mem_of_getElem? hx
  have hkey : KeyStyle.flags.isKeyed x.1 = true := by
    simp [KeyStyle.isKeyed, Parameter.hasFlag, (haddressed x hmem).long]
  exact fillOne_of_lookup [] (hpreset x hmem) hkey
    (lookup_inlinePairs hnodup (horder.mem_iff.2 hmem) (haddressed x hmem).long)

/-- **A line of inline flags, one for each parameter in any order, gives the values of their
texts, or the error of the first parameter in declaration order whose text is no value.** -/
theorem inline_flags_parse (ctx : ParseContext) {given order : List (Parameter × String)}
    (haccepted : Strategy.flagMismatch (given.map Prod.fst) = none)
    (haddressed : ∀ x ∈ given, Addressed x.1)
    (htype : ∀ x ∈ given, ∀ name, x.1.type ≠ .ambient name) (horder : order.Perm given) :
    let parsed := Strategy.flags.parse (given.map Prod.fst)
      (String.ofList (Line.quoted (order.map inlineFlag))) ctx
    (∀ values, List.Forall₂
        (fun x v => ctx.coercions.coerce x.1.type (.text x.2) = .ok v) given values →
      parsed = .ok values) ∧
    ∀ before p text after cause, given = before ++ (p, text) :: after →
      (∀ x ∈ before, ∃ v, ctx.coercions.coerce x.1.type (.text x.2) = .ok v) →
      ctx.coercions.coerce p.type (.text text) = .error cause →
      parsed = .error (.coercion p.label cause) := by
  intro parsed
  have hpreset : ∀ x ∈ given, ctx.presetFor x.1 = none := by
    intro x hx
    unfold ParseContext.presetFor
    split
    · next name he => exact absurd he (htype x hx name)
    · rfl
  have hparsed : parsed = readEach (fun x => coerceFor ctx x.1 (.text x.2)) given :=
    flags_parse_inlineFlags ctx haccepted haddressed hpreset horder
  constructor
  · intro values hvalues
    rw [hparsed, readEach_eq_ok_iff]
    clear hparsed parsed haccepted haddressed htype horder hpreset
    induction hvalues with
    | nil => rfl
    | cons hv _ ih => rw [List.map_cons, List.map_cons, ih, coerceFor, hv]
  · rintro before p text after cause hgiven hbefore hcause
    rw [hparsed, hgiven]
    exact readEach_append_error (fun x hx => by
      obtain ⟨v, hv⟩ := hbefore x hx
      exact ⟨v, by rw [coerceFor, hv]⟩) (by rw [coerceFor, hcause])

theorem inline_flags_parse_backwards :
    let all := { Parameter.flag "all" (.list .int) with required := true }
    let say := { Parameter.flag "say it" .str with short := some 'a', joint := true }
    let on := Parameter.flag "on" .bool
    let parse := fun raw =>
      Strategy.flags.parse [all, say, on] raw ⟨.builtin, fun _ => none, .asFilled⟩
    (Strategy.flagMismatch [all, say, on] = none ∧
      (∀ p ∈ [all, say, on], Addressed p) ∧
      ∀ p ∈ [all, say, on], ∀ name, p.type ≠ .ambient name) ∧
    parse "\"--on=no\" \"--say it=--all=\\\"[\\\" \\\\ \" \"--all=[1, 2]\"" =
      .ok [.list [.int 1, .int 2], .str "--all=\"[\" \\ ", .bool false] ∧
    parse "\"--on=\" \"--say it=\" \"--all=[1,x]\"" =
      .error (.coercion "--all" (.invalid "int" "x")) := by
  intro all say on parse
  have haccepted : Strategy.flagMismatch [all, say, on] = none := by decide
  have haddressed : ∀ p ∈ [all, say, on], Addressed p := by
    intro p hp
    simp only [List.mem_cons, List.not_mem_nil, or_false] at hp
    rcases hp with rfl | rfl | rfl <;> exact ⟨rfl, by decide, by decide⟩
  have htype : ∀ p ∈ [all, say, on], ∀ name, p.type ≠ .ambient name := by
    intro p hp name
    simp only [List.mem_cons, List.not_mem_nil, or_false] at hp
    rcases hp with rfl | rfl | rfl <;> rintro ⟨⟩
  have hgiven (a b c : String) := @inline_flags_parse ⟨.builtin, fun _ => none, .asFilled⟩
    [(all, a), (say, b), (on, c)] [(on, c), (say, b), (all, a)] haccepted
    (fun x hx => haddressed x.1 (List.mem_map_of_mem hx))
    (fun x hx => htype x.1 (List.mem_map_of_mem hx)) (List.reverse_perm [_, _, _])
  have hline₁ : "\"--on=no\" \"--say it=--all=\\\"[\\\" \\\\ \" \"--all=[1, 2]\"" =
      String.ofList (Line.quoted ([(on, "no"), (say, "--all=\"[\" \\ "), (all, "[1, 2]")].map
        inlineFlag)) := by decide
  have hline₂ : "\"--on=\" \"--say it=\" \"--all=[1,x]\"" =
      String.ofList (Line.quoted ([(on, ""), (say, ""), (all, "[1,x]")].map inlineFlag)) := by
    decide
  have hlist : Coercions.builtin.coerce (.list .int) (.text "[1, 2]") =
      .ok (.list [.int 1, .int 2]) := rfl
  have hno : Coercions.builtin.coerce .bool (.text "no") = .ok (.bool false) := by
    have hread : readBool? "no".toList = some false := by decide
    show Coercions.readBool "no" = _
    rw [Coercions.readBool, hread]
  have hbad : Coercions.builtin.coerce (.list .int) (.text "[1,x]") =
      .error (.invalid "int" "x") := rfl
  refine ⟨⟨haccepted, haddressed, htype⟩, ?_, ?_⟩
  · rw [hline₁]
    exact (hgiven _ _ _).1 _ (.cons hlist (.cons rfl (.cons hno .nil)))
  · rw [hline₂]
    exact (hgiven _ _ _).2 [] _ _ _ _ rfl (fun x hx => by cases hx) hbad

end CommandShell
