import CommandShell.Parse.Flags
import CommandShell.Parse.Names
import CommandShell.Proofs.Parse.Turns
/-!
# Defaults of parameters that the line supplies

What a line gives for flags and its leftovers do not depend on defaults, and neither does the route
of a parameter that the line supplies.  Still its default is read in one case: a parameter whose
flag was not given keeps its default until the leftovers that remain are handed out, and a default
that is no value of its type fails before that.

    a line is taken apart in the same way whatever the defaults            (extraction_bare)
    `resolve` as one chain through a parameter                             (values_append)
    a parameter that is filled afterwards may hold any value before        (backfill_set)
    another default of a supplied parameter changes nothing, if both are values wherever the
    parameter is filled afterwards                                         (values_withDefault)
    where a line parses, that is the only exception                (default_of_supplied_iff)
-/

namespace CommandShell

/-- The parameter with another default, or with none. -/
def Parameter.withDefault (p : Parameter) (literal : Option String) : Parameter :=
  { p with default := literal }

/-- The parameter without its default. -/
def Parameter.bare (p : Parameter) : Parameter := p.withDefault none

/-- The strategy that looks parameters up in a style. -/
def KeyStyle.strategy : KeyStyle → Strategy
  | flags => Strategy.flags
  | names => Strategy.names

/-- What the strategy finds on a line. -/
def KeyStyle.extraction : KeyStyle → List Parameter → String → Extraction
  | flags => flagExtraction
  | names => nameExtraction

/-- What parameters are filled from when the strategy parses a line. -/
def KeyStyle.supply (style : KeyStyle) (ps : List Parameter) (raw : String) (ctx : ParseContext) :
    Supply :=
  .ofExtraction style ctx [] (style.extraction ps raw)

/-- Whether the value of a parameter is taken from the line. -/
inductive Route.FromLine : Route → Prop
  | flag (name : String) (given : Given) : FromLine (.flag name given)
  | leftover (word : String) : FromLine (.leftover word)

theorem KeyStyle.parse_eq (style : KeyStyle) (ps : List Parameter) (raw : String)
    (ctx : ParseContext) :
    style.strategy.parse ps raw ctx = (style.supply ps raw ctx).values ps := by
  cases style <;> rfl

/-! ## Lines and defaults -/

section WithDefault

variable (p : Parameter) (literal : Option String)

theorem KeyStyle.isKeyed_withDefault (style : KeyStyle) :
    style.isKeyed (p.withDefault literal) = style.isKeyed p := by
  cases style <;> rfl

theorem KeyStyle.lookup_withDefault (style : KeyStyle) (found : List (String × Given)) :
    style.lookup (p.withDefault literal) found = style.lookup p found := by
  cases style <;> rfl

theorem Supply.isOpen_withDefault (s : Supply) (i : Nat) :
    s.isOpen (i, p.withDefault literal) = s.isOpen (i, p) := by
  simp only [Supply.isOpen, KeyStyle.isKeyed_withDefault, KeyStyle.lookup_withDefault]
  rfl

end WithDefault

section Bare

variable (ps : List Parameter)

theorem map_bare_set {i : Nat} {p : Parameter} (hp : ps[i]? = some p) (literal : Option String) :
    (ps.set i (p.withDefault literal)).map Parameter.bare = ps.map Parameter.bare := by
  have hi : i < ps.length := (List.getElem?_eq_some_iff.1 hp).1
  refine List.ext_getElem? fun j => ?_
  rw [List.getElem?_map, List.getElem?_map]
  by_cases hj : i = j
  · subst hj
    rw [List.getElem?_set_self hi, hp]
    rfl
  · rw [List.getElem?_set_ne hj]

theorem letter?_bare (c : Char) :
    FlagWord.letter? (ps.map Parameter.bare) c = (FlagWord.letter? ps c).map Parameter.bare :=
  List.find?_map

theorem find?_bare (name : String) :
    Parameter.find? (ps.map Parameter.bare) name =
      (Parameter.find? ps name).map Parameter.bare := by
  unfold Parameter.find?
  rw [List.find?_map, List.find?_map, Option.map_or]
  rfl

theorem isBundle_bare (name : List Char) :
    FlagWord.isBundle (ps.map Parameter.bare) name = FlagWord.isBundle ps name := by
  have hlong : ((ps.map Parameter.bare).any fun p => p.long = some (String.ofList name)) =
      ps.any fun p => p.long = some (String.ofList name) := List.any_map
  unfold FlagWord.isBundle
  rw [hlong]
  simp only [letter?_bare, Option.any_map, Option.isSome_map]
  rfl

theorem ofWord_bare (word : String) :
    FlagWord.ofWord (ps.map Parameter.bare) word = FlagWord.ofWord ps word := by
  unfold FlagWord.ofWord
  simp only [isBundle_bare, find?_bare]
  cases Parameter.find? ps (String.ofList (Literal.flagName word.toList)) <;> rfl

theorem extractFlags_bare (e : Extraction) (words : List String) :
    extractFlags (ps.map Parameter.bare) e words = extractFlags ps e words := by
  fun_induction extractFlags ps e words with
  | case1 e => rfl
  | case2 e word rest hword ih => rw [extractFlags, ofWord_bare, hword]; exact ih
  | case3 e word rest hword ih => rw [extractFlags, ofWord_bare, hword]; exact ih
  | case4 e word rest name value hword ih => rw [extractFlags, ofWord_bare, hword]; exact ih
  | case5 e word rest letters hword ih => rw [extractFlags, ofWord_bare, hword]; exact ih
  | case6 e word rest name hword => rw [extractFlags, ofWord_bare, hword]
  | case7 e word name type hword => rw [extractFlags, ofWord_bare, hword]
  | case8 e word name type hword next more htakes ih =>
    rw [extractFlags, ofWord_bare, hword]
    dsimp only
    rw [if_pos htakes]
    exact ih
  | case9 e word name type hword next more htakes ih =>
    rw [extractFlags, ofWord_bare, hword]
    dsimp only
    rw [if_neg htakes]
    exact ih

theorem parameterNamed?_bare (word : String) :
    parameterNamed? (ps.map Parameter.bare) word =
      (parameterNamed? ps word).map Parameter.bare :=
  List.find?_map

theorem extractNames_bare (e : Extraction) (words : List String) :
    extractNames (ps.map Parameter.bare) e words = extractNames ps e words := by
  fun_induction extractNames ps e words with
  | case1 e => rfl
  | case2 e word rest hword ih =>
    rw [extractNames.eq_def]
    dsimp only
    rw [parameterNamed?_bare, hword]
    exact ih
  | case3 e word rest p hword hjoint =>
    rw [extractNames.eq_def]
    dsimp only
    rw [parameterNamed?_bare, hword]
    exact if_pos hjoint
  | case4 e word p hword hjoint =>
    rw [extractNames, parameterNamed?_bare, hword]
    exact if_neg hjoint
  | case5 e word p hword hjoint next more hnext ih =>
    rw [extractNames, parameterNamed?_bare, hword]
    dsimp only [Option.map_some]
    rw [if_neg (show ¬ p.bare.joint = true from hjoint), parameterNamed?_bare,
      Option.isNone_map, if_pos hnext]
    exact ih
  | case6 e word p hword hjoint next more hnext ih =>
    rw [extractNames, parameterNamed?_bare, hword]
    dsimp only [Option.map_some]
    rw [if_neg (show ¬ p.bare.joint = true from hjoint), parameterNamed?_bare,
      Option.isNone_map, if_neg hnext]
    exact ih

/-- A line is taken apart in the same way whatever the defaults. -/
theorem extraction_bare (style : KeyStyle) (raw : String) :
    style.extraction (ps.map Parameter.bare) raw = style.extraction ps raw := by
  cases style with
  | flags => exact extractFlags_bare ps .empty _
  | names => exact extractNames_bare ps .empty _

theorem supply_set {i : Nat} {p : Parameter} (hp : ps[i]? = some p) (literal : Option String)
    (style : KeyStyle) (raw : String) (ctx : ParseContext) :
    style.supply (ps.set i (p.withDefault literal)) raw ctx = style.supply ps raw ctx := by
  unfold KeyStyle.supply
  rw [← extraction_bare, map_bare_set ps hp, extraction_bare]

end Bare

/-! ## Filling afterwards -/

theorem positioned_map (f : Parameter → Parameter) (n : Nat) (ps : List Parameter) :
    positioned n (ps.map f) = (positioned n ps).map (Prod.map id f) := by
  unfold positioned
  rw [List.zipIdx_map, List.map_map, List.map_map]
  rfl

/-- Filling afterwards looks at no default. -/
theorem backfill_bare (ctx : ParseContext) (order : List (Nat × Parameter)) (values : List Value)
    (left : List String) :
    backfill ctx values left (order.map (Prod.map id Parameter.bare)) =
      backfill ctx values left order := by
  induction order generalizing values left with
  | nil => rfl
  | cons x order ih =>
    obtain ⟨i, p⟩ := x
    have hcoerce (given : Given) : coerceFor ctx p.bare given = coerceFor ctx p given := rfl
    have hjoint : p.bare.joint = p.joint := rfl
    simp only [List.map_cons, Prod.map, id, backfill, hcoerce, hjoint, ih]

/-- A parameter that is filled afterwards may hold any value before. -/
theorem backfill_set {ctx : ParseContext} {order : List (Nat × Parameter)} {i : Nat}
    {left : List String} {word : String}
    (h : Assoc.get? i (handOut order left).1 = some word) (values : List Value) (v : Value) :
    backfill ctx (values.set i v) left order = backfill ctx values left order := by
  induction order generalizing values left with
  | nil => cases h
  | cons x order ih =>
    obtain ⟨j, p⟩ := x
    cases left with
    | nil =>
      rw [handOut_nil] at h
      cases h
    | cons first rest =>
      rw [handOut_cons, Assoc.get?] at h
      rw [backfill, backfill, takeLeftover_cons]
      dsimp only
      cases coerceFor ctx p (.text (Line.joined (portion p (first :: rest)))) with
      | error e => rfl
      | ok u =>
        dsimp only at h ⊢
        by_cases hj : j = i
        · rw [hj, List.set_set]
        · rw [if_neg hj] at h
          rw [List.set_comm v u (Ne.symm hj), ih h]

namespace Supply

variable {s : Supply} {ps : List Parameter} {i : Nat} {p : Parameter}

theorem openLast_bare (s : Supply) (ps : List Parameter) :
    s.openLast (positioned 0 (ps.map Parameter.bare)) =
      (s.openLast (positioned 0 ps)).map (Prod.map id Parameter.bare) := by
  have hopen : s.isOpen ∘ Prod.map id Parameter.bare = s.isOpen := by
    funext x
    exact isOpen_withDefault x.2 none s x.1
  unfold openLast
  rw [positioned_map, List.filter_map, hopen, List.filter_map, List.filter_map, List.map_append]
  rfl

theorem backfill_openLast_set (hp : ps[i]? = some p) (literal : Option String)
    (values : List Value) (left : List String) :
    backfill s.ctx values left (s.openLast (positioned 0 (ps.set i (p.withDefault literal)))) =
      backfill s.ctx values left (s.openLast (positioned 0 ps)) := by
  rw [← backfill_bare, ← openLast_bare, map_bare_set ps hp, openLast_bare, backfill_bare]

/-! ## One chain through a parameter -/

theorem fillAll_append (s : Supply) (n : Nat) (queue : List String) (as bs : List Parameter) :
    fillAll s.style s.ctx s.prefilled s.found n queue (as ++ bs) =
      (fillAll s.style s.ctx s.prefilled s.found n queue as).bind fun first =>
        (fillAll s.style s.ctx s.prefilled s.found (n + as.length) first.2 bs).map fun rest =>
          (first.1 ++ rest.1, rest.2) := by
  induction as generalizing n queue with
  | nil =>
    show fillAll s.style s.ctx s.prefilled s.found n queue bs =
      (fillAll s.style s.ctx s.prefilled s.found n queue bs).map fun rest => (rest.1, rest.2)
    cases fillAll s.style s.ctx s.prefilled s.found n queue bs <;> rfl
  | cons p as ih =>
    rw [List.cons_append, fillAll, fillAll]
    cases fillOne s.style s.ctx s.found queue p (Assoc.get? n s.prefilled) with
    | error e => rfl
    | ok one =>
      dsimp only
      rw [ih, List.length_cons, ← Nat.add_assoc, Nat.add_right_comm]
      cases fillAll s.style s.ctx s.prefilled s.found (n + 1) one.2 as with
      | error e => rfl
      | ok first =>
        dsimp only [Except.bind]
        cases fillAll s.style s.ctx s.prefilled s.found (n + as.length + 1) first.2 bs <;> rfl

theorem values_eq (s : Supply) (ps : List Parameter) :
    s.values ps =
      (fillAll s.style s.ctx s.prefilled s.found 0 s.leftovers ps).bind fun filled =>
        backfill s.ctx (filled.1.map (·.value)) filled.2 (s.openLast (positioned 0 ps)) := by
  unfold values resolve
  cases hfill : fillAll s.style s.ctx s.prefilled s.found 0 s.leftovers ps with
  | error e => rfl
  | ok filled =>
    obtain ⟨-, hlen, hall⟩ := fillAll_ok hfill
    simp only [Nat.zero_add] at hall
    have horder := backfillOrder_eq hlen fun i p slot hp hslot => by
      obtain ⟨slot', hslot', hfits⟩ := hall i p hp
      rw [hslot, Option.some.injEq] at hslot'
      exact hslot' ▸ hfits.replaceable
    dsimp only [Except.bind]
    rw [horder]

/-- The first pass through a parameter and on, and the second pass. -/
theorem values_append (s : Supply) (before : List Parameter) (p : Parameter)
    (after : List Parameter) :
    s.values (before ++ p :: after) =
      (fillAll s.style s.ctx s.prefilled s.found 0 s.leftovers before).bind fun first =>
        (fillOne s.style s.ctx s.found first.2 p (Assoc.get? before.length s.prefilled)).bind
          fun one =>
            (fillAll s.style s.ctx s.prefilled s.found (before.length + 1) one.2 after).bind
              fun rest =>
                backfill s.ctx ((first.1 ++ one.1 :: rest.1).map (·.value)) rest.2
                  (s.openLast (positioned 0 (before ++ p :: after))) := by
  rw [values_eq, fillAll_append, Nat.zero_add]
  cases fillAll s.style s.ctx s.prefilled s.found 0 s.leftovers before with
  | error e => rfl
  | ok first =>
    dsimp only [Except.bind]
    rw [fillAll]
    cases fillOne s.style s.ctx s.found first.2 p (Assoc.get? before.length s.prefilled) with
    | error e => rfl
    | ok one =>
      dsimp only
      cases fillAll s.style s.ctx s.prefilled s.found (before.length + 1) one.2 after <;> rfl

/-! ## Another default -/

theorem share_of_route {shares : List (Nat × String)} {word : String}
    (h : s.routeWith shares i p = .leftover word) : Assoc.get? i shares = some word := by
  unfold routeWith at h
  split at h
  · cases h
  · split at h
    · cases h
    · split at h
      · next hshare =>
        cases h
        exact hshare
      · cases h
      · cases h

/-- Whatever a parameter gets it has a turn for. -/
theorem mem_consumers_of_share (hp : ps[i]? = some p) {word : String}
    (h : Assoc.get? i (s.shares ps) = some word) : (i, p) ∈ s.consumers ps := by
  obtain ⟨q, hq⟩ := mem_of_mem_handOut (Assoc.mem_of_get? h)
  have hpos := mem_positioned_iff.2 ⟨Nat.zero_le i, hp⟩
  rwa [positioned_injective hpos (mem_consumers hq).1]

/-- Until it is filled, a parameter holds its default or the zero of its type. -/
theorem fillOne_of_isOpen (hopen : s.isOpen (i, p) = true) (left : List String) :
    fillOne s.style s.ctx s.found left p (Assoc.get? i s.prefilled) =
      (fallback s.ctx p).map fun v => (⟨v, true⟩, left) := by
  simp only [isOpen, Bool.and_eq_true, Option.isNone_iff_eq_none, Bool.not_eq_true',
    decide_eq_true_eq] at hopen
  obtain ⟨⟨⟨⟨hready, hkey⟩, hlookup⟩, hoptional⟩, htype⟩ := hopen
  have hor : (Assoc.get? i s.prefilled).or (s.ctx.presetFor p) = none := hready
  rw [fillOne, hor]
  dsimp only
  rw [if_pos hkey, hlookup]
  dsimp only
  rw [if_neg (Bool.eq_false_iff.1 hoptional), decide_eq_true htype]

/-- The default of a parameter is not read where a flag or a leftover gives the value. -/
theorem fillOne_withDefault (left : List String) (prefilled : Option Value)
    (literal : Option String)
    (hkeyed : s.style.isKeyed p = true → s.style.lookup p s.found ≠ none)
    (hkeyless : s.style.isKeyed p = false → left ≠ []) :
    fillOne s.style s.ctx s.found left (p.withDefault literal) prefilled =
      fillOne s.style s.ctx s.found left p prefilled := by
  have hpreset : s.ctx.presetFor (p.withDefault literal) = s.ctx.presetFor p := rfl
  have hcoerce (given : Given) :
      coerceFor s.ctx (p.withDefault literal) given = coerceFor s.ctx p given := rfl
  unfold fillOne
  rw [hpreset, KeyStyle.isKeyed_withDefault, KeyStyle.lookup_withDefault]
  cases prefilled.or (s.ctx.presetFor p) with
  | some v => rfl
  | none =>
    cases hkey : s.style.isKeyed p with
    | true =>
      cases hlookup : s.style.lookup p s.found with
      | some given => rfl
      | none => exact absurd hlookup (hkeyed hkey)
    | false =>
      cases left with
      | nil => exact absurd rfl (hkeyless hkey)
      | cons word rest =>
        have hjoint : (p.withDefault literal).joint = p.joint := rfl
        rw [hjoint, takeLeftover_cons]
        rfl

theorem exists_split (hp : ps[i]? = some p) :
    ∃ before after, ps = before ++ p :: after ∧ before.length = i ∧
      ∀ q, ps.set i q = before ++ q :: after := by
  have hi := (List.getElem?_eq_some_iff.1 hp).1
  refine ⟨ps.take i, ps.drop (i + 1), (Strategy.take_append_cons_drop hp).symm, ?_, fun q => ?_⟩
  · rw [List.length_take, Nat.min_eq_left (Nat.le_of_lt hi)]
  · rw [List.set_eq_take_append_cons_drop, if_pos hi]

/-- A parameter without a flag that has a share finds words left at its turn. -/
theorem left_of_share {before after : List Parameter} {word : String}
    (hkeyless : s.isKeyless (before.length, p) = true)
    (hshare : Assoc.get? before.length (s.shares (before ++ p :: after)) = some word) :
    (handOut ((positioned 0 before).filter s.isKeyless) s.leftovers).2 ≠ [] := by
  obtain ⟨turn, hturn, hat⟩ := exists_turn_of_keyless hkeyless after
  rw [hat]
  intro hleft
  rw [shares, get?_handOut (s.nodup_consumers _) hturn, if_pos hleft] at hshare
  cases hshare

/-- The default of a parameter that has its value from a flag, or from the leftovers in the first
pass, does not matter. -/
theorem values_withDefault_of_not_open (hp : ps[i]? = some p)
    (hline : (s.route ps i p).FromLine) (hopen : s.isOpen (i, p) = false)
    (literal : Option String) :
    s.values (ps.set i (p.withDefault literal)) = s.values ps := by
  have horder := fun values left => backfill_openLast_set (s := s) hp literal values left
  obtain ⟨before, after, rfl, rfl, hset⟩ := exists_split hp
  rw [hset] at horder ⊢
  rw [values_append, values_append]
  simp only [horder]
  cases hbefore : fillAll s.style s.ctx s.prefilled s.found 0 s.leftovers before with
  | error e => rfl
  | ok first =>
    obtain ⟨hleft, -, -⟩ := fillAll_ok hbefore
    have hone : fillOne s.style s.ctx s.found first.2 (p.withDefault literal)
        (Assoc.get? before.length s.prefilled) =
          fillOne s.style s.ctx s.found first.2 p (Assoc.get? before.length s.prefilled) := by
      cases hroute : s.route (before ++ p :: after) before.length p with
      | flag name given =>
        obtain ⟨-, hkey, hsource⟩ := routeWith_eq_flag_iff.1 hroute
        refine fillOne_withDefault _ _ _ (fun _ => ?_) fun hno => ?_
        · simp [KeyStyle.lookup_eq_source?, hsource]
        · rw [hkey] at hno
          cases hno
      | leftover word =>
        have hshare := share_of_route hroute
        rcases (mem_consumers (mem_consumers_of_share hp hshare)).2 with hkeyless | hopen'
        · refine fillOne_withDefault _ _ _ (fun hkey => ?_) fun _ => ?_
          · simp [isKeyless, hkey] at hkeyless
          · rw [hleft]
            exact left_of_share hkeyless hshare
        · rw [hopen] at hopen'
          cases hopen'
      | ready v => rw [hroute] at hline; cases hline
      | default literal => rw [hroute] at hline; cases hline
      | zero => rw [hroute] at hline; cases hline
    dsimp only [Except.bind]
    rw [hone]

/-- The default of a parameter that is filled afterwards does not matter if it is a value. -/
theorem values_withDefault_of_open (hp : ps[i]? = some p) (hline : (s.route ps i p).FromLine)
    (hopen : s.isOpen (i, p) = true) {literal : Option String} {v v' : Value}
    (hv : fallback s.ctx p = .ok v) (hv' : fallback s.ctx (p.withDefault literal) = .ok v') :
    s.values (ps.set i (p.withDefault literal)) = s.values ps := by
  obtain ⟨word, hshare⟩ : ∃ word, Assoc.get? i (s.shares ps) = some word := by
    cases hroute : s.route ps i p with
    | leftover word => exact ⟨word, share_of_route hroute⟩
    | flag name given =>
      obtain ⟨-, -, hsource⟩ := routeWith_eq_flag_iff.1 hroute
      simp [isOpen, KeyStyle.lookup_eq_source?, hsource] at hopen
    | ready v => rw [hroute] at hline; cases hline
    | default literal => rw [hroute] at hline; cases hline
    | zero => rw [hroute] at hline; cases hline
  rw [share_of_isOpen (mem_positioned_iff.2 ⟨Nat.zero_le i, hp⟩) hopen] at hshare
  have horder := fun values left => backfill_openLast_set (s := s) hp literal values left
  have hopen' : s.isOpen (i, p.withDefault literal) = true := by
    rw [isOpen_withDefault]
    exact hopen
  obtain ⟨before, after, rfl, rfl, hset⟩ := exists_split hp
  rw [hset] at horder ⊢
  rw [values_append, values_append]
  simp only [horder, fillOne_of_isOpen hopen, fillOne_of_isOpen hopen', hv, hv']
  cases hbefore : fillAll s.style s.ctx s.prefilled s.found 0 s.leftovers before with
  | error e => rfl
  | ok first =>
    dsimp only [Except.bind, Except.map]
    cases hafter : fillAll s.style s.ctx s.prefilled s.found (before.length + 1) first.2 after with
    | error e => rfl
    | ok rest =>
      have hall : fillAll s.style s.ctx s.prefilled s.found 0 s.leftovers (before ++ p :: after) =
          .ok (first.1 ++ ⟨v, true⟩ :: rest.1, rest.2) := by
        rw [fillAll_append, hbefore, Nat.zero_add]
        dsimp only [Except.bind]
        rw [fillAll, fillOne_of_isOpen hopen, hv]
        dsimp only [Except.map]
        rw [hafter]
      obtain ⟨-, hlen, -⟩ := fillAll_ok hbefore
      obtain ⟨hleft, -, -⟩ := fillAll_ok hall
      rw [← hleft] at hshare
      have hvalues : (first.1 ++ ⟨v', true⟩ :: rest.1).map (fun slot => slot.value) =
          ((first.1 ++ ⟨v, true⟩ :: rest.1).map fun slot => slot.value).set before.length v' := by
        simp [hlen]
      dsimp only
      rw [hvalues, backfill_set hshare]

/-- **Another default of a parameter that the line supplies changes nothing**, if both defaults
are values wherever the parameter is filled afterwards. -/
theorem values_withDefault (hp : ps[i]? = some p) (hline : (s.route ps i p).FromLine)
    {literal : Option String}
    (hvalue : s.isOpen (i, p) = true → (∃ v, fallback s.ctx p = .ok v) ∧
      ∃ v, fallback s.ctx (p.withDefault literal) = .ok v) :
    s.values (ps.set i (p.withDefault literal)) = s.values ps := by
  cases hopen : s.isOpen (i, p) with
  | false => exact values_withDefault_of_not_open hp hline hopen literal
  | true =>
    obtain ⟨⟨v, hv⟩, v', hv'⟩ := hvalue hopen
    exact values_withDefault_of_open hp hline hopen hv hv'

/-- Where all values are found, the default of a parameter that is filled afterwards is one. -/
theorem fallback_of_values {values : List Value} (hp : ps[i]? = some p)
    (hopen : s.isOpen (i, p) = true) (h : s.values ps = .ok values) :
    ∃ v, fallback s.ctx p = .ok v := by
  obtain ⟨before, after, rfl, rfl, -⟩ := exists_split hp
  rw [values_append] at h
  simp only [fillOne_of_isOpen hopen] at h
  cases hv : fallback s.ctx p with
  | ok v => exact ⟨v, rfl⟩
  | error e =>
    rw [hv] at h
    cases hbefore : fillAll s.style s.ctx s.prefilled s.found 0 s.leftovers before with
    | error e => rw [hbefore] at h; cases h
    | ok first => rw [hbefore] at h; cases h

end Supply

/-- **The default of a parameter that the line supplies matters in one case only.**  Where the line
parses, another default leaves the outcome as it is, unless the parameter is filled afterwards, for
its flag was not given, and the other default is no value of its type. -/
theorem default_of_supplied_iff (style : KeyStyle) (ps : List Parameter) (raw : String)
    (ctx : ParseContext) {i : Nat} {p : Parameter} (hp : ps[i]? = some p)
    (hline : ((style.supply ps raw ctx).route ps i p).FromLine) (literal : Option String) :
    let parse := fun ps => style.strategy.parse ps raw ctx
    let filledAfterwards := (style.supply ps raw ctx).isOpen (i, p) = true
    let other := p.withDefault literal
    ((filledAfterwards → (∃ v, fallback ctx p = .ok v) ∧ ∃ v, fallback ctx other = .ok v) →
      parse (ps.set i other) = parse ps) ∧
    ∀ values, parse ps = .ok values →
      (parse (ps.set i other) = parse ps ↔
        (filledAfterwards → ∃ v, fallback ctx other = .ok v)) := by
  intro parse filledAfterwards other
  have hparse : parse ps = (style.supply ps raw ctx).values ps := style.parse_eq ps raw ctx
  have hother : parse (ps.set i other) = (style.supply ps raw ctx).values (ps.set i other) := by
    rw [← supply_set ps hp literal]
    exact style.parse_eq _ raw ctx
  rw [hparse, hother]
  refine ⟨Supply.values_withDefault hp hline, fun values hvalues => ⟨fun hsame hopen => ?_,
    fun hvalue => Supply.values_withDefault hp hline fun hopen =>
      ⟨Supply.fallback_of_values hp hopen hvalues, hvalue hopen⟩⟩⟩
  have hi : i < ps.length := (List.getElem?_eq_some_iff.1 hp).1
  have hp' : (ps.set i other)[i]? = some other := List.getElem?_set_self hi
  rw [hvalues] at hsame
  refine Supply.fallback_of_values hp' ?_ hsame
  rw [Supply.isOpen_withDefault]
  exact hopen

theorem default_of_count_swapped :
    let count := { Parameter.flag "count" .int with default := some "3" }
    let ps := [count, .named "word" .str]
    let ctx : ParseContext := ⟨.builtin, fun _ => none, .asFilled⟩
    let named := fun literal =>
      KeyStyle.names.strategy.parse (ps.set 0 (count.withDefault literal)) "count 5 a" ctx
    let afterwards := fun literal =>
      KeyStyle.flags.strategy.parse (ps.set 0 (count.withDefault literal)) "a 5" ctx
    let values := [Value.int 5, .str "a"]
    ((KeyStyle.names.supply ps "count 5 a" ctx).route ps 0 count).FromLine ∧
      ((KeyStyle.flags.supply ps "a 5" ctx).route ps 0 count).FromLine ∧
      named (some "x") = KeyStyle.names.strategy.parse ps "count 5 a" ctx ∧
      KeyStyle.flags.strategy.parse ps "a 5" ctx = .ok values ∧
      afterwards (some "4") = .ok values ∧ afterwards (some "x") ≠ .ok values := by
  intro count ps ctx named afterwards values
  have hwords : Line.arguments "count 5 a" = ["count", "5", "a"] := by rfl
  have hsupply : KeyStyle.names.supply ps "count 5 a" ctx =
      ⟨.names, ctx, [], [("count", .text "5")], ["a"]⟩ := by
    have hextract : nameExtraction ps "count 5 a" = ⟨[("count", .text "5")], ["a"]⟩ := by
      rw [nameExtraction, hwords]
      rfl
    rw [KeyStyle.supply, KeyStyle.extraction, hextract]
    rfl
  have hnames : ((KeyStyle.names.supply ps "count 5 a" ctx).route ps 0 count).FromLine := by
    rw [hsupply]
    exact .flag "count" (.text "5")
  have hgiven : (KeyStyle.names.supply ps "count 5 a" ctx).isOpen (0, count) = false := by
    rw [hsupply]
    rfl
  have hflags : ((KeyStyle.flags.supply ps "a 5" ctx).route ps 0 count).FromLine :=
    .leftover "5"
  have hvalues : KeyStyle.flags.strategy.parse ps "a 5" ctx = .ok values := rfl
  have hgood : fallback ctx (count.withDefault (some "4")) = .ok (.int 4) := rfl
  have hbad : fallback ctx (count.withDefault (some "x")) =
      .error (.coercion "--count" (.invalid "int" "x")) := rfl
  have hcount : ps[0]? = some count := rfl
  have hline := default_of_supplied_iff .flags ps "a 5" ctx hcount hflags
  refine ⟨hnames, hflags, ?_, hvalues, ?_, ?_⟩
  · exact (default_of_supplied_iff .names ps "count 5 a" ctx hcount hnames (some "x")).1
      fun hopen => absurd (hgiven.symm.trans hopen) Bool.false_ne_true
  · exact (((hline (some "4")).2 values hvalues).2 fun _ => ⟨_, hgood⟩).trans hvalues
  · intro hsame
    obtain ⟨v, hv⟩ := ((hline (some "x")).2 values hvalues).1 (hsame.trans hvalues.symm) rfl
    cases hbad.symm.trans hv

/-- A default that is no number fails the line, although the line gives a number. -/
theorem bad_default_fails_supplied :
    ¬ ∀ (style : KeyStyle) (ps : List Parameter) (raw : String) (ctx : ParseContext) (i : Nat)
        (p : Parameter) (literal : Option String),
      Strategy.flagMismatch ps = none → ps[i]? = some p →
        ((style.supply ps raw ctx).route ps i p).FromLine →
        style.strategy.parse (ps.set i (p.withDefault literal)) raw ctx =
          style.strategy.parse ps raw ctx := by
  intro h
  let count := { Parameter.flag "count" .int with default := some "x" }
  let ctx : ParseContext := ⟨.builtin, fun _ => none, .asFilled⟩
  have hbad : Strategy.flags.parse [count] "5" ctx =
      .error (.coercion "--count" (.invalid "int" "x")) := rfl
  have hnone : Strategy.flags.parse [count.withDefault none] "5" ctx = .ok [.int 5] := rfl
  have hsame : Strategy.flags.parse [count.withDefault none] "5" ctx =
      Strategy.flags.parse [count] "5" ctx :=
    h .flags [count] "5" ctx 0 count none (by decide) rfl (.leftover "5")
  rw [hbad, hnone] at hsame
  cases hsame

end CommandShell
