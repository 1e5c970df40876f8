import CommandShell.Proofs.Line.Spelling
import CommandShell.Proofs.Parse.Accounting
import CommandShell.Proofs.Parse.Defaults
import CommandShell.Proofs.Parse.FlagUse
import CommandShell.Proofs.Parse.InlineFlags
/-!
# The rest of a line

A joint flag takes all words behind it, as they are: flags, truth values and the flag itself are
nothing but text there.  What stands before the joint flag keeps its meaning, and so do the
parameters that are filled from it.

    the flags of two such lines differ in the text of the joint one        (extractFlags_rest)
    parameters that find the same given are filled in the same way         (fillAll_congr)
    the value of a parameter that takes no leftovers stays apart           (backfill_set_apart)
    the text of the joint flag is its parameter's value, and no other parameter depends on it
                                                                       (joint_flag_takes_rest)
-/

namespace CommandShell

open CommandShell.Literal

/-- A line on which these words stand, each in quotes or with backslashes as it may be, and blanks
between them. -/
def Line.Spelled (line : String) (ws : List String) : Prop :=
  ∃ (pieces : List (List Char × SpelledWord)) (after : List Char),
    (∀ p ∈ pieces, Text.allBlank p.1 = true) ∧ (∀ p ∈ pieces.tail, p.1 ≠ []) ∧
      Text.allBlank after = true ∧ line = String.ofList (spelledLine pieces after) ∧
      ws = pieces.map fun p => String.ofList p.2.word

/-- The flag that addresses a parameter by its long name. -/
def Parameter.longFlag (p : Parameter) : String := "--" ++ p.longName

/-- The parameter at the position is a text and takes the rest of the line behind its long flag. -/
structure TakesRest (ps : List Parameter) (coercions : Coercions) (i : Nat) (m : Parameter) :
    Prop where
  accepted : Strategy.flagMismatch ps = none
  place : ps[i]? = some m
  joint : m.joint = true
  text : m.type = .str
  addressed : Addressed m
  length : 2 ≤ m.longName.length
  builtin : Assoc.get? "string" coercions.custom = none

theorem Line.Spelled.arguments_eq {line : String} {ws : List String} (h : Line.Spelled line ws) :
    Line.arguments line = ws := by
  obtain ⟨pieces, after, hblank, hgap, hafter, rfl, rfl⟩ := h
  rw [Line.arguments, String.toList_ofList, Line.words_spelledLine hblank hgap hafter, List.map_map]
  rfl

/-! ## The joint flag -/

section Joint

variable {ps : List Parameter} {coercions : Coercions} {i : Nat} {m p : Parameter}

theorem mem_of_find? {name : String} (h : Parameter.find? ps name = some p) : p ∈ ps := by
  rcases Option.or_eq_some_iff.1 h with h | ⟨-, h⟩
  · exact List.mem_of_find?_eq_some h
  · exact List.mem_of_find?_eq_some h

/-- Two parameters are not both joint. -/
theorem eq_of_joint (haccepted : Strategy.flagMismatch ps = none) (hm : m ∈ ps) (hp : p ∈ ps)
    (hmjoint : m.joint = true) (hpjoint : p.joint = true) : p = m := by
  have hlength : ¬ 1 < (ps.filter (·.joint)).length := fun hlength => by
    have := (Option.or_eq_none_iff.1 haccepted).2
    rw [if_pos hlength] at this
    cases this
  have hm : m ∈ ps.filter (·.joint) := List.mem_filter.2 ⟨hm, hmjoint⟩
  have hp : p ∈ ps.filter (·.joint) := List.mem_filter.2 ⟨hp, hpjoint⟩
  cases hall : ps.filter (·.joint) with
  | nil => rw [hall] at hm; cases hm
  | cons a rest =>
    cases rest with
    | nil =>
      rw [hall] at hm hp
      rw [List.mem_singleton.1 hm, List.mem_singleton.1 hp]
    | cons b rest =>
      rw [hall] at hlength
      exact absurd (by simp) hlength

theorem find?_long (hd : Strategy.DistinctFlags ps) (hp : ps[i]? = some p) {name : String}
    (hlong : p.long = some name) : Parameter.find? ps name = some p := by
  rw [Parameter.find?_eq_position?, position?_long hd hp hlong]
  exact hp

theorem inline?_of_plain {name : List Char} (h : '=' ∉ name) : FlagWord.inline? name = none := by
  unfold FlagWord.inline?
  split
  · next key value hcut =>
    rw [(Text.cutAt_eq_some hcut).1] at h
    simp at h
  · rfl

namespace TakesRest

theorem names (h : TakesRest ps coercions i m) : FlagWord.Names ps m.longFlag m := by
  have hword : m.longFlag.toList = '-' :: '-' :: m.longName.toList := by
    rw [Parameter.longFlag, String.toList_append]
    rfl
  have hname : flagName m.longFlag.toList = m.longName.toList := by
    rw [hword]
    rfl
  have hlong := h.addressed.long
  constructor
  · rw [hword]
    exact looksLikeFlag_dashes _
  · rw [hname]
    exact fun he => h.addressed.nonempty (String.toList_eq_nil_iff.1 he)
  · rw [hname]
    exact inline?_of_plain h.addressed.plain
  · have hany : (ps.any fun p => p.long = some (String.ofList m.longName.toList)) = true :=
      List.any_eq_true.2 ⟨m, List.mem_of_getElem? h.place, by simpa using hlong⟩
    unfold FlagWord.isBundle
    rw [hname, if_pos hany]
  · rw [FlagWord.nameOf, hname, String.ofList_toList]
    exact find?_long (Strategy.distinctFlags_of_mismatch h.accepted) h.place hlong

/-- What stands before the joint flag is found as if nothing stood behind. -/
theorem extractFlags_rest (h : TakesRest ps coercions i m) {pre : List String}
    (hpre : ∀ w ∈ pre, looksLikeFlag w.toList = true →
      Parameter.find? ps (FlagWord.nameOf w) ≠ some m) (ts : List String) :
    extractFlags ps .empty (pre ++ m.longFlag :: ts) =
      (extractFlags ps .empty pre).withFlag m.longName (.text (Line.joined ts)) := by
  have hjoint : ∀ w ∈ pre, ¬ FlagWord.IsJoint ps w := by
    rintro w hw ⟨p, hp, hpjoint⟩
    obtain rfl := eq_of_joint h.accepted (List.mem_of_getElem? h.place) (mem_of_find? hp.known)
      h.joint hpjoint
    exact hpre w hw hp.flag hp.known
  have hname : FlagWord.nameOf m.longFlag = m.longName := by
    rw [FlagWord.nameOf, Parameter.longFlag, String.toList_append]
    exact String.ofList_toList
  rw [extractFlags_joint .empty hjoint h.names h.joint, hname]

end TakesRest

end Joint

/-! ## Filling parameters -/

section Filling

variable {style : KeyStyle} {ctx : ParseContext} {prefilled : List (Nat × Value)}
variable {found found' : List (String × Given)}

/-- Parameters that find the same given are filled in the same way. -/
theorem fillAll_congr {ps : List Parameter}
    (h : ∀ p ∈ ps, style.lookup p found = style.lookup p found') (n : Nat) (queue : List String) :
    fillAll style ctx prefilled found n queue ps =
      fillAll style ctx prefilled found' n queue ps := by
  induction ps generalizing n queue with
  | nil => rfl
  | cons p ps ih =>
    have hone : fillOne style ctx found queue p (Assoc.get? n prefilled) =
        fillOne style ctx found' queue p (Assoc.get? n prefilled) := by
      unfold fillOne
      rw [h p List.mem_cons_self]
    have hrest := ih fun q hq => h q (List.mem_cons_of_mem _ hq)
    rw [fillAll, fillAll, hone]
    simp only [hrest]

/-- The same parameters are open if they find something given in both. -/
theorem openLast_congr {s s' : Supply} {all : List (Nat × Parameter)}
    (h : ∀ x ∈ all, s.isOpen x = s'.isOpen x) : s.openLast all = s'.openLast all := by
  unfold Supply.openLast
  rw [List.filter_congr h]

/-- A value that is not filled afterwards stays apart. -/
theorem backfill_set_apart {order : List (Nat × Parameter)} {i : Nat}
    (h : ∀ p, (i, p) ∉ order) (values : List Value) (left : List String) (v : Value) :
    backfill ctx (values.set i v) left order =
      (backfill ctx values left order).map fun values => values.set i v := by
  induction order generalizing values left with
  | nil => rfl
  | cons x order ih =>
    obtain ⟨j, p⟩ := x
    have hj : i ≠ j := by
      rintro rfl
      exact h p List.mem_cons_self
    have hrest := ih fun q hq => h q (List.mem_cons_of_mem _ hq)
    rw [backfill, backfill]
    cases takeLeftover p.joint left with
    | none => rfl
    | some taken =>
      dsimp only
      cases coerceFor ctx p (.text taken.1) with
      | error e => rfl
      | ok u =>
        dsimp only
        rw [List.set_comm v u hj, hrest]

theorem lookup_put_of_ne {p : Parameter} {name : String} (hlong : p.long ≠ some name)
    (hshort : p.shortName ≠ some name) (given : Given) :
    style.lookup p (Assoc.put name given found) = style.lookup p found := by
  have hget (o : Option String) (ho : o ≠ some name) :
      (o.bind fun n => Assoc.get? n (Assoc.put name given found)) =
        o.bind fun n => Assoc.get? n found := by
    cases o with
    | none => rfl
    | some n =>
      rw [Option.bind_some, Option.bind_some]
      exact Assoc.get?_put_of_ne (fun he => ho (congrArg some he)) _ _
  unfold KeyStyle.lookup
  rw [hget _ hlong, hget _ hshort]

end Filling

namespace TakesRest

variable {ps : List Parameter} {ctx : ParseContext} {i : Nat} {m : Parameter}

/-- No other parameter is looked up under the name of the joint flag. -/
theorem lookup_other (h : TakesRest ps ctx.coercions i m) {j : Nat} {p : Parameter}
    (hp : ps[j]? = some p) (hj : j ≠ i) (given : Given) (found : List (String × Given)) :
    KeyStyle.flags.lookup p (Assoc.put m.longName given found) = KeyStyle.flags.lookup p found := by
  refine lookup_put_of_ne (fun hlong => hj ?_) (fun hshort => ?_) given
  · exact (Strategy.distinctFlags_of_mismatch h.accepted).eq_of_long hp h.place hlong
      h.addressed.long
  · obtain ⟨c, -, hc⟩ := Option.map_eq_some_iff.1 hshort
    have hlength := h.length
    rw [← hc] at hlength
    simp at hlength

theorem lookup_self (h : TakesRest ps ctx.coercions i m) (given : Given)
    (found : List (String × Given)) :
    KeyStyle.flags.lookup m (Assoc.put m.longName given found) = some given := by
  rw [KeyStyle.lookup, h.addressed.long, Option.bind_some, Assoc.get?_put_self]
  rfl

theorem coerceFor_text (h : TakesRest ps ctx.coercions i m) (t : String) :
    coerceFor ctx m (.text t) = .ok (.str t) := by
  have hcustom : Assoc.get? (ValueType.display .str) ctx.coercions.custom = none := h.builtin
  rw [coerceFor, h.text, Coercions.coerce, hcustom]

/-- What parameters are filled from when the text stands behind the joint flag. -/
def supply (ctx : ParseContext) (m : Parameter) (e : Extraction) (t : String) : Supply :=
  .ofExtraction .flags ctx [] (e.withFlag m.longName (.text t))

theorem found_supply (ctx : ParseContext) (m : Parameter) (e : Extraction) (t : String) :
    (supply ctx m e t).found = Assoc.put m.longName (.text t) e.flags := rfl

section Texts

variable (h : TakesRest ps ctx.coercions i m) (e : Extraction) (t t' : String)

include h

theorem lookup_supply {j : Nat} {p : Parameter} (hp : ps[j]? = some p) (hj : j ≠ i) :
    KeyStyle.flags.lookup p (supply ctx m e t').found =
      KeyStyle.flags.lookup p (supply ctx m e t).found := by
  rw [found_supply, found_supply, h.lookup_other hp hj, h.lookup_other hp hj]

theorem isOpen_self : (supply ctx m e t).isOpen (i, m) = false := by
  have hlookup : (supply ctx m e t).style.lookup m (supply ctx m e t).found = some (.text t) :=
    h.lookup_self _ _
  simp [Supply.isOpen, hlookup]

theorem isOpen_supply {j : Nat} {p : Parameter} (hp : ps[j]? = some p) :
    (supply ctx m e t').isOpen (j, p) = (supply ctx m e t).isOpen (j, p) := by
  by_cases hj : j = i
  · subst hj
    cases hp.symm.trans h.place
    rw [h.isOpen_self, h.isOpen_self]
  · have hlookup : (supply ctx m e t').style.lookup p (supply ctx m e t').found =
        (supply ctx m e t).style.lookup p (supply ctx m e t).found := h.lookup_supply e t t' hp hj
    simp only [Supply.isOpen, hlookup]
    rfl

theorem openLast_supply :
    (supply ctx m e t').openLast (positioned 0 ps) =
      (supply ctx m e t).openLast (positioned 0 ps) := by
  refine openLast_congr fun x hx => ?_
  obtain ⟨j, p⟩ := x
  exact h.isOpen_supply e t t' (mem_positioned_iff.1 hx).2

theorem not_mem_openLast (p : Parameter) :
    (i, p) ∉ (supply ctx m e t).openLast (positioned 0 ps) := by
  intro hmem
  obtain ⟨hpos, hopen⟩ := Supply.mem_openLast.1 hmem
  cases (mem_positioned_iff.1 hpos).2.symm.trans h.place
  rw [h.isOpen_self] at hopen
  cases hopen

/-- The joint flag gives its parameter the text. -/
theorem fillOne_self (left : List String) :
    fillOne .flags ctx (supply ctx m e t).found left m none = .ok (.fixed (.str t), left) := by
  have hpreset : ctx.presetFor m = none := by
    rw [ParseContext.presetFor, h.text]
  have hkey : KeyStyle.flags.isKeyed m = true := by
    simp [KeyStyle.isKeyed, Parameter.hasFlag, h.addressed.long]
  rw [found_supply, fillOne_of_lookup left hpreset hkey (h.lookup_self _ _), h.coerceFor_text]
  rfl

/-- The text is the value of its parameter, and nothing else depends on it. -/
theorem values_supply :
    (supply ctx m e t').values ps =
      ((supply ctx m e t).values ps).map fun values => values.set i (.str t') := by
  have horder := h.openLast_supply e t t'
  have hapart := h.not_mem_openLast e t
  have hlookup {j : Nat} {p : Parameter} := @lookup_supply ps ctx i m h e t t' j p
  have hself (t : String) (left : List String) := h.fillOne_self e t left
  obtain ⟨before, after, rfl, rfl, -⟩ := Supply.exists_split h.place
  have hbefore : ∀ p ∈ before, KeyStyle.flags.lookup p (supply ctx m e t').found =
      KeyStyle.flags.lookup p (supply ctx m e t).found := by
    intro p hp
    obtain ⟨j, hj⟩ := List.getElem?_of_mem hp
    have hlt := (List.getElem?_eq_some_iff.1 hj).1
    exact hlookup (by rw [List.getElem?_append_left hlt, hj]) (Nat.ne_of_lt hlt)
  have hafter : ∀ p ∈ after, KeyStyle.flags.lookup p (supply ctx m e t').found =
      KeyStyle.flags.lookup p (supply ctx m e t).found := by
    intro p hp
    obtain ⟨j, hj⟩ := List.getElem?_of_mem hp
    have hplace : (before ++ m :: after)[before.length + (j + 1)]? = some p := by
      rw [List.getElem?_append_right (Nat.le_add_right _ _), Nat.add_sub_cancel_left]
      exact hj
    exact hlookup hplace (by omega)
  -- the parameters before, the joint one and those behind are filled in step
  rw [Supply.values_append, Supply.values_append, horder]
  show (fillAll .flags ctx [] (supply ctx m e t').found 0 e.leftovers before).bind _ =
    ((fillAll .flags ctx [] (supply ctx m e t).found 0 e.leftovers before).bind _).map _
  rw [fillAll_congr hbefore]
  cases hfirst : fillAll .flags ctx [] (supply ctx m e t).found 0 e.leftovers before with
  | error err => rfl
  | ok first =>
    show (fillOne .flags ctx (supply ctx m e t').found first.2 m none).bind _ =
      ((fillOne .flags ctx (supply ctx m e t).found first.2 m none).bind _).map _
    rw [hself, hself]
    show (fillAll .flags ctx [] (supply ctx m e t').found _ first.2 after).bind _ =
      ((fillAll .flags ctx [] (supply ctx m e t).found _ first.2 after).bind _).map _
    rw [fillAll_congr hafter]
    cases fillAll .flags ctx [] (supply ctx m e t).found (before.length + 1) first.2 after with
    | error err => rfl
    | ok rest =>
      have hlen := (Supply.fillAll_ok (s := supply ctx m e t) hfirst).2.1
      have hvalues : (first.1 ++ Slot.fixed (.str t') :: rest.1).map (fun slot => slot.value) =
          ((first.1 ++ Slot.fixed (.str t) :: rest.1).map fun slot => slot.value).set
            before.length (.str t') := by
        simp [hlen, Slot.fixed]
      show backfill ctx _ rest.2 _ = (backfill ctx _ rest.2 _).map _
      rw [hvalues, backfill_set_apart hapart]

end Texts

end TakesRest

/-- **A joint flag takes the rest of the line as it is.**  The words behind it, flags or not, are
joined to the value of its parameter.  All other parameters have the values that they have if
nothing stands behind the flag, and where these are not found the line fails in the same way. -/
theorem joint_flag_takes_rest (ctx : ParseContext) {ps : List Parameter} {i : Nat} {m : Parameter}
    (h : TakesRest ps ctx.coercions i m) {pre ts : List String}
    (hpre : ∀ w ∈ pre, looksLikeFlag w.toList = true →
      Parameter.find? ps (FlagWord.nameOf w) ≠ some m)
    {line bareLine : String} (hline : Line.Spelled line (pre ++ m.longFlag :: ts))
    (hbare : Line.Spelled bareLine (pre ++ [m.longFlag])) :
    let parse := fun raw => Strategy.flags.parse ps raw ctx
    (∀ e, parse line = .error e ↔ parse bareLine = .error e) ∧
    ∀ bare, parse bareLine = .ok bare → ∃ values, parse line = .ok values ∧
      values[i]? = some (.str (Line.joined ts)) ∧ ∀ j, j ≠ i → values[j]? = bare[j]? := by
  intro parse
  have hparse {raw : String} {ws : List String}
      (hraw : Line.Spelled raw (pre ++ m.longFlag :: ws)) :
      parse raw =
        (TakesRest.supply ctx m (extractFlags ps .empty pre) (Line.joined ws)).values ps := by
    show resolve ps (extractFlags ps .empty (Line.arguments raw)) .flags ctx [] = _
    rw [hraw.arguments_eq, h.extractFlags_rest hpre]
    rfl
  have hsame : parse line =
      (parse bareLine).map fun values => values.set i (.str (Line.joined ts)) := by
    rw [hparse hline, hparse hbare]
    exact h.values_supply _ _ _
  rw [hsame]
  constructor
  · intro e
    cases parse bareLine with
    | error e' => rfl
    | ok bare =>
      constructor
      · rintro ⟨⟩
      · rintro ⟨⟩
  · intro bare hok
    have hlen : bare.length = ps.length := (Supply.resolve_ok ((hparse hbare).symm.trans hok)).1
    have hi : i < bare.length := hlen ▸ (List.getElem?_eq_some_iff.1 h.place).1
    refine ⟨bare.set i (.str (Line.joined ts)), by rw [hok]; rfl, List.getElem?_set_self hi, ?_⟩
    exact fun j hj => List.getElem?_set_ne (Ne.symm hj)

/-- A flag, a truth value and the joint flag itself behind the joint flag, and a flag that waits
for its value before it. -/
theorem rest_holds_flags :
    let count := Parameter.flag "count" .int
    let on := Parameter.flag "on" .bool
    let rest := { Parameter.flag "rest" .str with joint := true }
    let ctx : ParseContext := ⟨.builtin, fun _ => none, .asFilled⟩
    let parse := fun raw => Strategy.flags.parse [count, on, rest] raw ctx
    (∃ values, parse "\"5\" \"--on\" \"--rest\" '--on' 'no' '--rest'" = .ok values ∧
      values[2]? = some (.str "--on no --rest") ∧ values[1]? = some (.bool true)) ∧
    parse "\"--count\" \"--rest\" '5'" =
      .error (.coercion "--count" (.missing "int")) := by
  intro count on rest ctx parse
  have h : TakesRest [count, on, rest] ctx.coercions 2 rest :=
    ⟨by decide, rfl, rfl, rfl, ⟨rfl, by decide, by decide⟩, by decide, rfl⟩
  have hpre₁ : ∀ w ∈ ["5", "--on"], looksLikeFlag w.toList = true →
      Parameter.find? [count, on, rest] (FlagWord.nameOf w) ≠ some rest := by decide
  have hpre₂ : ∀ w ∈ ["--count"], looksLikeFlag w.toList = true →
      Parameter.find? [count, on, rest] (FlagWord.nameOf w) ≠ some rest := by decide
  have hline₁ : Line.Spelled "\"5\" \"--on\" \"--rest\" '--on' 'no' '--rest'"
      (["5", "--on"] ++ rest.longFlag :: ["--on", "no", "--rest"]) :=
    ⟨[([], ⟨"5".toList, .double, trivial⟩), ([' '], ⟨"--on".toList, .double, trivial⟩),
      ([' '], ⟨"--rest".toList, .double, trivial⟩), ([' '], ⟨"--on".toList, .single, by decide⟩),
      ([' '], ⟨"no".toList, .single, by decide⟩), ([' '], ⟨"--rest".toList, .single, by decide⟩)],
      [], by decide, by decide, rfl, by decide, by decide⟩
  have hbare₁ : Line.Spelled "\"5\" \"--on\" \"--rest\"" (["5", "--on"] ++ [rest.longFlag]) :=
    ⟨[([], ⟨"5".toList, .double, trivial⟩), ([' '], ⟨"--on".toList, .double, trivial⟩),
      ([' '], ⟨"--rest".toList, .double, trivial⟩)], [], by decide, by decide, rfl, by decide,
      by decide⟩
  have hline₂ : Line.Spelled "\"--count\" \"--rest\" '5'" (["--count"] ++ rest.longFlag :: ["5"]) :=
    ⟨[([], ⟨"--count".toList, .double, trivial⟩), ([' '], ⟨"--rest".toList, .double, trivial⟩),
      ([' '], ⟨"5".toList, .single, by decide⟩)], [], by decide, by decide, rfl, by decide,
      by decide⟩
  have hbare₂ : Line.Spelled "\"--count\" \"--rest\"" (["--count"] ++ [rest.longFlag]) :=
    ⟨[([], ⟨"--count".toList, .double, trivial⟩), ([' '], ⟨"--rest".toList, .double, trivial⟩)],
      [], by decide, by decide, rfl, by decide, by decide⟩
  have hok : parse "\"5\" \"--on\" \"--rest\"" = .ok [.int 5, .bool true, .str ""] := rfl
  have herror : parse "\"--count\" \"--rest\"" =
      .error (.coercion "--count" (.missing "int")) := rfl
  obtain ⟨-, hvalues⟩ := joint_flag_takes_rest ctx h hpre₁ hline₁ hbare₁
  obtain ⟨values, hparse, hrest, hother⟩ := hvalues _ hok
  exact ⟨⟨values, hparse, hrest, hother 1 (by decide)⟩,
    ((joint_flag_takes_rest ctx h hpre₂ hline₂ hbare₂).1 _).2 herror⟩

end CommandShell
