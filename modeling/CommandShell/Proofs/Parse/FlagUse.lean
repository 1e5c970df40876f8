import CommandShell.Parse.Flags
import CommandShell.Proofs.Line.Spelling
import CommandShell.Proofs.Parse.Routes
/-!
# Which parameter a flag serves

A word of the line that is a flag names one parameter: the one with that long name, else the one
with that letter; a letter in a run names the parameter with that letter.  What is recorded for
the flag is its text alone, and values are looked up by that text again.  `flagRecords` keeps for
every record the parameter that the word named, so that the two can be compared.

    the flags found = the records, put in turn                             (extractFlags_flags)
    a record names by `position?` or by a letter                           (mem_flagRecords)
    every flag serves the parameter it names ↔ no letter of a parameter is the long name
    of another                                                             (flags_serve_iff)
-/

namespace CommandShell

/-- What is recorded for a flag, and the position of the parameter that its word names. -/
structure FlagRecord where
  name : String
  given : Given
  target : Option Nat

namespace FlagRecord

/-- The position of the parameter with that letter. -/
def letterPosition? (ps : List Parameter) (c : Char) : Option Nat :=
  ps.findIdx? fun p => p.short = some c

/-- The record of a word that is one flag. -/
def ofName (ps : List Parameter) (name : String) (given : Given) : FlagRecord :=
  ⟨name, given, Parameter.position? ps name⟩

/-- The record of a letter in a run of letters. -/
def ofLetter (ps : List Parameter) (c : Char) : FlagRecord :=
  ⟨String.ofList [c], .present, letterPosition? ps c⟩

def pair (r : FlagRecord) : String × Given := (r.name, r.given)

end FlagRecord

open FlagRecord Literal

/-- The flags of a line in their order. -/
def flagRecords (ps : List Parameter) : List String → List FlagRecord
  | [] => []
  | word :: rest =>
    match FlagWord.ofWord ps word with
    | .leftover => flagRecords ps rest
    | .ignored => flagRecords ps rest
    | .inline name value => ofName ps name (.text value) :: flagRecords ps rest
    | .bundle letters => letters.map (ofLetter ps) ++ flagRecords ps rest
    | .joint name => [ofName ps name (.text (Line.joined rest))]
    | .flag name type =>
      match rest with
      | [] => [ofName ps name .present]
      | next :: more =>
        if FlagWord.takes type next then ofName ps name (.text next) :: flagRecords ps more
        else ofName ps name .present :: flagRecords ps (next :: more)

/-- What `resolve` is given by the strategy with flags. -/
def flagSupply (ps : List Parameter) (raw : String) (ctx : ParseContext) : Supply :=
  .ofExtraction .flags ctx [] (flagExtraction ps raw)

/-- Whoever takes the value of a flag is the parameter that the flag names.  Only the last record
under a name counts; the value of an earlier one is taken by nobody. -/
def FlagsServe (ps : List Parameter) (raw : String) (ctx : ParseContext) : Prop :=
  ∀ before r after, flagRecords ps (Line.arguments raw) = before ++ r :: after →
    (∀ r' ∈ after, r'.name ≠ r.name) → ∀ i p, ps[i]? = some p →
      (flagSupply ps raw ctx).route ps i p = .flag r.name r.given → r.target = some i

/-- A letter of one parameter is the long name of another. -/
def LetterIsName (ps : List Parameter) : Prop :=
  ∃ (i j : Nat) (p q : Parameter) (c : Char), i ≠ j ∧ ps[i]? = some p ∧ ps[j]? = some q ∧
    p.short = some c ∧ q.long = some (String.ofList [c])

/-! ## Records -/

theorem foldl_withFlag (letters : List Char) (ps : List Parameter) (e : Extraction) :
    (letters.foldl (fun e c => e.withFlag (String.ofList [c]) .present) e).flags =
      Assoc.putAll e.flags ((letters.map (ofLetter ps)).map pair) := by
  induction letters generalizing e with
  | nil => rfl
  | cons c letters ih => exact ih _

theorem extractFlags_flags (ps : List Parameter) (e : Extraction) (words : List String) :
    (extractFlags ps e words).flags =
      Assoc.putAll e.flags ((flagRecords ps words).map pair) := by
  fun_induction extractFlags ps e words with
  | case1 e => rfl
  | case2 e word rest hword ih => rw [flagRecords, hword]; exact ih
  | case3 e word rest hword ih => rw [flagRecords, hword]; exact ih
  | case4 e word rest name value hword ih => rw [flagRecords, hword]; exact ih
  | case5 e word rest letters hword ih =>
    rw [flagRecords, hword, ih, foldl_withFlag, List.map_append]
    exact List.foldl_append.symm
  | case6 e word rest name hword => rw [flagRecords, hword]; rfl
  | case7 e word name type hword => rw [flagRecords, hword]; rfl
  | case8 e word name type hword next more htakes ih =>
    rw [flagRecords, hword]
    dsimp only
    rw [if_pos htakes]
    exact ih
  | case9 e word name type hword next more htakes ih =>
    rw [flagRecords, hword]
    dsimp only
    rw [if_neg htakes]
    exact ih

theorem isBundle_of_ofWord {ps : List Parameter} {word : String} {letters : List Char}
    (h : FlagWord.ofWord ps word = .bundle letters) : FlagWord.isBundle ps letters = true := by
  unfold FlagWord.ofWord at h
  split at h
  · dsimp only at h
    split at h
    · cases h
    · split at h
      · cases h
      · split at h
        · next hbundle =>
          cases h
          exact hbundle
        · split at h
          · cases h
          · split at h
            · cases h
            · cases h
  · cases h

/-- Each letter of a run belongs to a parameter. -/
theorem exists_short_of_isBundle {ps : List Parameter} {letters : List Char}
    (h : FlagWord.isBundle ps letters = true) {c : Char} (hc : c ∈ letters) :
    ∃ p ∈ ps, p.short = some c := by
  have hsome : (FlagWord.letter? ps c).isSome = true := by
    unfold FlagWord.isBundle at h
    split at h
    · cases h
    · split at h
      · cases h
      · next c' =>
        obtain rfl := List.mem_singleton.1 hc
        exact Option.isSome_of_any h
      · exact List.all_eq_true.1 h c hc
  obtain ⟨p, hp⟩ := Option.isSome_iff_exists.1 hsome
  exact ⟨p, List.mem_of_find?_eq_some hp, by simpa using List.find?_some hp⟩

theorem mem_flagRecords {ps : List Parameter} {words : List String} {r : FlagRecord}
    (h : r ∈ flagRecords ps words) :
    r.target = Parameter.position? ps r.name ∨
      ∃ c p, p ∈ ps ∧ p.short = some c ∧ r.name = String.ofList [c] ∧
        r.target = letterPosition? ps c := by
  fun_induction flagRecords ps words with
  | case1 => cases h
  | case2 word rest hword ih => exact ih h
  | case3 word rest hword ih => exact ih h
  | case4 word rest name value hword ih =>
    rcases List.mem_cons.1 h with rfl | h
    · exact Or.inl rfl
    · exact ih h
  | case5 word rest letters hword ih =>
    rcases List.mem_append.1 h with h | h
    · obtain ⟨c, hc, rfl⟩ := List.mem_map.1 h
      obtain ⟨p, hp, hshort⟩ := exists_short_of_isBundle (isBundle_of_ofWord hword) hc
      exact Or.inr ⟨c, p, hp, hshort, rfl, rfl⟩
    · exact ih h
  | case6 word rest name hword =>
    obtain rfl := List.mem_singleton.1 h
    exact Or.inl rfl
  | case7 word name type hword =>
    obtain rfl := List.mem_singleton.1 h
    exact Or.inl rfl
  | case8 word name type hword next more htakes ih =>
    rcases List.mem_cons.1 h with rfl | h
    · exact Or.inl rfl
    · exact ih h
  | case9 word name type hword next more htakes ih =>
    rcases List.mem_cons.1 h with rfl | h
    · exact Or.inl rfl
    · exact ih h

/-! ## The parameter that a name names -/

section Naming

variable {ps : List Parameter} {i : Nat} {p : Parameter}

theorem answersTo_iff (p : Parameter) (name : String) :
    p.answersTo name = true ↔
      p.long = some name ∨ ∃ c, p.short = some c ∧ String.ofList [c] = name := by
  simp [Parameter.answersTo, Parameter.shortName]

theorem findIdx?_eq_some_of_unique {α : Type} {l : List α} {test : α → Bool} {i : Nat} {a : α}
    (hi : l[i]? = some a) (ha : test a = true)
    (hunique : ∀ j b, l[j]? = some b → test b = true → j = i) : l.findIdx? test = some i := by
  obtain ⟨k, hk⟩ : ∃ k, l.findIdx? test = some k := by
    rw [← Option.isSome_iff_exists, List.findIdx?_isSome, List.any_eq_true]
    exact ⟨a, List.mem_of_getElem? hi, ha⟩
  obtain ⟨hlt, htest, -⟩ := List.findIdx?_eq_some_iff_getElem.1 hk
  rw [hk, hunique k _ (List.getElem?_eq_getElem hlt) htest]

/-- A long name names whoever has it. -/
theorem position?_long (hd : Strategy.DistinctFlags ps) (hp : ps[i]? = some p) {name : String}
    (hlong : p.long = some name) : Parameter.position? ps name = some i := by
  have hfind : (ps.findIdx? fun q => q.long = some name) = some i :=
    findIdx?_eq_some_of_unique hp (by simpa using hlong) fun j q hq hq' =>
      hd.eq_of_long hq hp (by simpa using hq') hlong
  rw [Parameter.position?, hfind, Option.some_or]

/-- Where no letter is another's name, a name names whoever answers to it. -/
theorem position?_of_answersTo (hd : Strategy.DistinctFlags ps) (hno : ¬ LetterIsName ps)
    (hp : ps[i]? = some p) {name : String} (hans : p.answersTo name = true) :
    Parameter.position? ps name = some i := by
  have hlong : ∀ j q, ps[j]? = some q → q.long = some name → j = i := by
    intro j q hq hl
    rcases (answersTo_iff p name).1 hans with h | ⟨c, hc, rfl⟩
    · exact hd.eq_of_long hq hp hl h
    · by_contra hne
      exact hno ⟨i, j, p, q, c, Ne.symm hne, hp, hq, hc, hl⟩
  unfold Parameter.position?
  cases hfind : ps.findIdx? fun q => q.long = some name with
  | some k =>
    obtain ⟨hlt, htest, -⟩ := List.findIdx?_eq_some_iff_getElem.1 hfind
    rw [hlong k _ (List.getElem?_eq_getElem hlt) (by simpa using htest), Option.some_or]
  | none =>
    have hnone : ∀ q ∈ ps, q.long ≠ some name := by
      simpa using List.findIdx?_eq_none_iff.1 hfind
    rw [Option.none_or]
    refine findIdx?_eq_some_of_unique hp hans fun j q hq hq' => ?_
    rcases (answersTo_iff q name).1 hq' with h | ⟨c, hc, rfl⟩
    · exact hlong j q hq h
    · rcases (answersTo_iff p _).1 hans with h | ⟨c', hc', he⟩
      · exact absurd h (hnone p (List.mem_of_getElem? hp))
      · obtain rfl : c' = c := by simpa using he
        exact hd.eq_of_short hq hp hc hc'

theorem letterPosition?_of_answersTo (hd : Strategy.DistinctFlags ps) (hno : ¬ LetterIsName ps)
    (hp : ps[i]? = some p) {c : Char} (hans : p.answersTo (String.ofList [c]) = true)
    (hletter : ∃ q ∈ ps, q.short = some c) : letterPosition? ps c = some i := by
  have hshort : ∀ j q, ps[j]? = some q → q.short = some c → j = i := by
    intro j q hq hc
    rcases (answersTo_iff p _).1 hans with h | ⟨c', hc', he⟩
    · by_contra hne
      exact hno ⟨j, i, q, p, c, hne, hq, hp, hc, h⟩
    · obtain rfl : c' = c := by simpa using he
      exact hd.eq_of_short hq hp hc hc'
  obtain ⟨q, hq, hc⟩ := hletter
  obtain ⟨k, hk⟩ := List.getElem?_of_mem hq
  obtain rfl := hshort k q hk hc
  exact findIdx?_eq_some_of_unique hk (by simpa using hc) fun j r hr hr' =>
    hshort j r hr (by simpa using hr')

end Naming

/-! ## Flags and the parameters they serve -/

theorem answersTo_of_source? {p : Parameter} {found : List (String × Given)} {name : String}
    {given : Given} (h : KeyStyle.flags.source? p found = some (name, given)) :
    p.answersTo name = true := by
  have hunder : ∀ o : Option String,
      (o.bind fun n => (Assoc.get? n found).map (n, ·)) = some (name, given) → o = some name := by
    intro o ho
    cases o with
    | none => cases ho
    | some n =>
      obtain ⟨g, -, he⟩ := Option.map_eq_some_iff.1 ho
      cases he
      rfl
  rw [answersTo_iff]
  rcases Option.or_eq_some_iff.1 h with h | ⟨-, h⟩
  · exact Or.inl (hunder _ h)
  · exact Or.inr (Option.map_eq_some_iff.1 (hunder _ h))

theorem flagsServe_of_distinct {ps : List Parameter} (hd : Strategy.DistinctFlags ps)
    (hno : ¬ LetterIsName ps) (raw : String) (ctx : ParseContext) : FlagsServe ps raw ctx := by
  intro before r after hsplit _ i p hp hroute
  obtain ⟨-, -, hsource⟩ := Supply.routeWith_eq_flag_iff.1 hroute
  have hans := answersTo_of_source? hsource
  have hr : r ∈ flagRecords ps (Line.arguments raw) := by simp [hsplit]
  rcases mem_flagRecords hr with htarget | ⟨c, q, hq, hc, hname, htarget⟩
  · rw [htarget, position?_of_answersTo hd hno hp hans]
  · rw [hname] at hans
    rw [htarget, letterPosition?_of_answersTo hd hno hp hans ⟨q, hq, hc⟩]

/-- A line of one flag whose name is a single character. -/
def oneFlag (c : Char) : String := String.ofList (Line.quoted [['-', '-', c]])

theorem ofWord_oneFlag {ps : List Parameter} {q : Parameter} {c : Char} (hq : q ∈ ps)
    (hlong : q.long = some (String.ofList [c])) :
    ∃ q' : Parameter, FlagWord.ofWord ps (String.ofList ['-', '-', c]) =
      if q'.joint then .joint (String.ofList [c]) else .flag (String.ofList [c]) q'.type := by
  have hflag : looksLikeFlag ['-', '-', c] = true := rfl
  have hname : flagName ['-', '-', c] = [c] := rfl
  have hinline : FlagWord.inline? [c] = none := by
    by_cases hc : c = '='
    · simp [FlagWord.inline?, Text.cutAt, hc]
    · simp [FlagWord.inline?, Text.cutAt, hc]
  have hbundle : FlagWord.isBundle ps [c] = false := by
    have hany : (ps.any fun p => p.long = some (String.ofList [c])) = true :=
      List.any_eq_true.2 ⟨q, hq, by simpa using hlong⟩
    rw [FlagWord.isBundle, if_pos hany]
  obtain ⟨q', hq'⟩ : ∃ q', (ps.find? fun p => p.long = some (String.ofList [c])) = some q' := by
    rw [← Option.isSome_iff_exists, List.find?_isSome]
    exact ⟨q, hq, by simpa using hlong⟩
  refine ⟨q', ?_⟩
  simp only [FlagWord.ofWord, String.toList_ofList, hflag, hname, hinline, hbundle,
    Parameter.find?, hq', Option.some_or]
  rfl

theorem flagRecords_oneFlag {ps : List Parameter} {q : Parameter} {c : Char} (hq : q ∈ ps)
    (hlong : q.long = some (String.ofList [c])) :
    ∃ given, flagRecords ps (Line.arguments (oneFlag c)) =
      [ofName ps (String.ofList [c]) given] := by
  obtain ⟨q', hword⟩ := ofWord_oneFlag hq hlong
  rw [oneFlag, Line.arguments_quoted, List.map_cons, List.map_nil, flagRecords, hword]
  cases q'.joint with
  | true => exact ⟨_, rfl⟩
  | false => exact ⟨_, rfl⟩

/-- A parameter with the letter is looked up under it, unless its long name was given. -/
theorem source?_of_letter {p : Parameter} {c : Char} {given : Given} (hc : p.short = some c)
    (hother : p.long ≠ some (String.ofList [c])) :
    KeyStyle.flags.source? p [(String.ofList [c], given)] = some (String.ofList [c], given) := by
  have hshort : p.shortName = some (String.ofList [c]) := by simp [Parameter.shortName, hc]
  have hlong : (p.long.bind fun name =>
      (Assoc.get? name [(String.ofList [c], given)]).map (name, ·)) = none := by
    cases hl : p.long with
    | none => rfl
    | some name =>
      have hne : String.ofList [c] ≠ name := fun he => hother (hl.trans (congrArg some he.symm))
      rw [Option.bind_some, Assoc.get?, if_neg hne]
      rfl
  show (p.long.bind _).or (p.shortName.bind _) = _
  rw [hlong, Option.none_or, hshort, Option.bind_some, Assoc.get?, if_pos rfl]
  rfl

/-- The parameter with the letter takes the value of the one flag. -/
theorem route_oneFlag {ps : List Parameter} {i : Nat} {p : Parameter} {c : Char} {given : Given}
    (hrecords : flagRecords ps (Line.arguments (oneFlag c)) =
      [ofName ps (String.ofList [c]) given])
    (hc : p.short = some c) (hother : p.long ≠ some (String.ofList [c])) :
    (flagSupply ps (oneFlag c) ⟨.builtin, fun _ => none, .asFilled⟩).route ps i p =
      .flag (String.ofList [c]) given := by
  have hpreset : ParseContext.presetFor ⟨.builtin, fun _ => none, .asFilled⟩ p = none := by
    unfold ParseContext.presetFor
    split <;> rfl
  have hfound : (flagSupply ps (oneFlag c) ⟨.builtin, fun _ => none, .asFilled⟩).found =
      [(String.ofList [c], given)] := by
    rw [flagSupply, Supply.ofExtraction, flagExtraction, extractFlags_flags, hrecords]
    rfl
  refine Supply.routeWith_eq_flag_iff.2 ⟨hpreset, ?_, ?_⟩
  · show p.hasFlag = true
    simp [Parameter.hasFlag, hc]
  · rw [hfound]
    exact source?_of_letter hc hother

/-- A name that is the long name of some parameter names one with that long name. -/
theorem long_of_position? {ps : List Parameter} {i : Nat} {p q : Parameter} {name : String}
    (hq : q ∈ ps) (hlong : q.long = some name) (hp : ps[i]? = some p)
    (h : Parameter.position? ps name = some i) : p.long = some name := by
  unfold Parameter.position? at h
  cases hfind : ps.findIdx? fun r => r.long = some name with
  | some k =>
    rw [hfind, Option.some_or, Option.some.injEq] at h
    subst h
    obtain ⟨hlt, htest, -⟩ := List.findIdx?_eq_some_iff_getElem.1 hfind
    rw [List.getElem?_eq_getElem hlt, Option.some.injEq] at hp
    subst hp
    simpa using htest
  | none =>
    have := List.findIdx?_eq_none_iff.1 hfind q hq
    simp [hlong] at this

/-- **Each flag serves the parameter it names, and that one alone, exactly if no letter of a
parameter is the long name of another.** -/
theorem flags_serve_iff (ps : List Parameter) (h : Strategy.flagMismatch ps = none) :
    (∀ raw ctx, FlagsServe ps raw ctx) ↔ ¬ LetterIsName ps := by
  have hd := Strategy.distinctFlags_of_mismatch h
  refine ⟨fun hserve => ?_, flagsServe_of_distinct hd⟩
  rintro ⟨i, j, p, q, c, hij, hp, hq, hc, hlong⟩
  have hmem := List.mem_of_getElem? hq
  have hother : p.long ≠ some (String.ofList [c]) := fun hl => hij (hd.eq_of_long hp hq hl hlong)
  obtain ⟨given, hrecords⟩ := flagRecords_oneFlag hmem hlong
  -- The word names a parameter with the long name, but the one with the letter takes its value.
  have htarget : Parameter.position? ps (String.ofList [c]) = some i :=
    hserve (oneFlag c) _ [] _ [] hrecords (by simp) i p hp (route_oneFlag hrecords hc hother)
  exact hother (long_of_position? hmem hlong hp htarget)

theorem flags_serve_letters_and_long_letter :
    Strategy.flagMismatch
        [{ Parameter.flag "all" .bool with short := some 'a' }, .flag "b" .int] = none ∧
      ∀ raw ctx, FlagsServe
        [{ Parameter.flag "all" .bool with short := some 'a' }, .flag "b" .int] raw ctx := by
  refine ⟨by decide, (flags_serve_iff _ (by decide)).2 ?_⟩
  rintro ⟨i, j, p, q, c, -, hp, hq, hc, hlong⟩
  have hp := List.mem_of_getElem? hp
  have hq := List.mem_of_getElem? hq
  simp only [List.mem_cons, List.not_mem_nil, or_false] at hp hq
  rcases hp with rfl | rfl
  · cases hc
    rcases hq with rfl | rfl
    · exact absurd hlong (by decide)
    · exact absurd hlong (by decide)
  · cases hc

/-- The word `--a` names the first of these parameters, but its value is looked up by both. -/
theorem flag_serves_two :
    ¬ ∀ ps raw ctx, Strategy.flagMismatch ps = none → FlagsServe ps raw ctx := by
  intro h
  let ps := [Parameter.flag "a" .int, { Parameter.flag "all" .int with short := some 'a' }]
  have hrecords : flagRecords ps (Line.arguments "--a 5") = [] ++ ⟨"a", .text "5", some 0⟩ :: [] :=
    rfl
  have := h ps "--a 5" ⟨.builtin, fun _ => none, .asFilled⟩ (by decide) [] _ [] hrecords (by simp)
    1 _ rfl rfl
  cases this

end CommandShell
