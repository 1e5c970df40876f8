import CommandShell.Proofs.Line.Placeholders
/-!
# Lines with placeholders

A line is read once, from left to right.  Whatever stands between and around its placeholders is
kept, each of them is replaced with what it stands for, and what it is replaced with is not read.

    Follows v path w      the path leads from v to w, through keys of objects and places of arrays
    StandsFor lookup e v  e names v: as a whole, or with a path behind its first dot
    pieces (l₀ ${e₁} l₁ … ${eₙ} lₙ) = l₀, e₁, l₁, …, eₙ, lₙ                  (pieces_assembled)
    substitute (l₀ ${e₁} l₁ … ${eₙ} lₙ) = l₀ r₁ l₁ … rₙ lₙ                (substitute_assembled)
-/

namespace CommandShell.Line

open CommandShell.Text

variable {lookup : String → Option Json} {g : Generator} {mark : Char} {e names s : List Char}

/-! ## Paths -/

theorem splitAt_eq_splitOn (mark : Char) (s : List Char) : splitAt mark s = s.splitOn mark := by
  induction s with
  | nil => rfl
  | cons c s ih =>
    have hcons : (c :: s).splitOn mark =
        if (c == mark) = true then [] :: s.splitOn mark
        else (s.splitOn mark).modifyHead (List.cons c) :=
      List.splitOnP_cons_eq_if_modifyHead c s
    simp only [hcons, splitAt, ih, beq_iff_eq]
    split
    · rfl
    · cases h : s.splitOn mark with
      | nil => exact absurd h (List.splitOn_ne_nil mark s)
      | cons piece pieces => rfl

theorem not_mem_of_mem_splitAt {p : List Char} (hp : p ∈ splitAt mark s) : mark ∉ p := by
  fun_induction splitAt mark s generalizing p with
  | case1 => simp_all
  | case2 rest ih =>
    rcases List.mem_cons.1 hp with rfl | hp
    · exact List.not_mem_nil
    · exact ih hp
  | case3 c rest hc _ =>
    rw [List.mem_singleton.1 hp, List.mem_singleton]
    exact Ne.symm hc
  | case4 c rest hc piece pieces hrest ih =>
    rw [hrest] at ih
    rcases List.mem_cons.1 hp with rfl | hp
    · exact fun hmem => (List.mem_cons.1 hmem).elim (Ne.symm hc) (ih List.mem_cons_self)
    · exact ih (List.mem_cons_of_mem piece hp)

/-- The parts between the marks are the only texts without a mark that make up the text. -/
theorem splitAt_eq_iff {parts : List (List Char)} :
    splitAt mark s = parts ↔
      parts ≠ [] ∧ (∀ p ∈ parts, mark ∉ p) ∧ s = [mark].intercalate parts := by
  rw [splitAt_eq_splitOn]
  constructor
  · rintro rfl
    exact ⟨List.splitOn_ne_nil mark s,
      fun p hp => not_mem_of_mem_splitAt (splitAt_eq_splitOn mark s ▸ hp),
      (List.intercalate_splitOn mark).symm⟩
  · rintro ⟨hne, hparts, rfl⟩
    exact List.splitOn_intercalate mark hparts hne

/-- A path leads from a value to a value under it. -/
inductive Follows : Json → List (List Char) → Json → Prop
  | here {v : Json} : Follows v [] v
  | key {named : List (String × Json)} {part : List Char} {path : List (List Char)} {v w : Json} :
    Assoc.get? (String.ofList part) named = some v → Follows v path w →
      Follows (.fields named) (part :: path) w
  | place {items : List Json} {part : List Char} {path : List (List Char)} {i : Nat} {v w : Json} :
    readWord? part = some i → items[i]? = some v → Follows v path w →
      Follows (.array items) (part :: path) w

theorem descend?_eq_some_iff {v w : Json} {path : List (List Char)} :
    descend? v path = some w ↔ Follows v path w := by
  constructor
  · intro h
    induction path generalizing v with
    | nil =>
      obtain rfl := Option.some.inj h
      exact .here
    | cons part path ih =>
      obtain ⟨u, hu, hw⟩ := Option.bind_eq_some_iff.1 h
      cases v with
      | fields named => exact .key hu (ih hw)
      | array items =>
        obtain ⟨i, hi, hu⟩ := Option.bind_eq_some_iff.1 hu
        exact .place hi hu (ih hw)
      | _ => cases hu
  · intro h
    induction h with
    | here => rfl
    | key hv _ ih => rw [descend?, child?, hv, Option.bind_some, ih]
    | place hi hv _ ih => rw [descend?, child?, hi, Option.bind_some, hv, Option.bind_some, ih]

/-- What a name stands for: the variable of the whole name, or what the path behind its first dot
leads to from the variable before that dot. -/
inductive StandsFor (lookup : String → Option Json) (names : List Char) : Json → Prop
  | whole {v : Json} : lookup (String.ofList names) = some v → StandsFor lookup names v
  | part {name : List Char} {path : List (List Char)} {v w : Json} :
    lookup (String.ofList names) = none → names = ['.'].intercalate (name :: path) → path ≠ [] →
      (∀ p ∈ name :: path, '.' ∉ p) → lookup (String.ofList name) = some v → Follows v path w →
      StandsFor lookup names w

theorem intercalate_cons {name : List Char} {path : List (List Char)} (hpath : path ≠ []) :
    [mark].intercalate (name :: path) = name ++ mark :: [mark].intercalate path := by
  cases path with
  | nil => exact absurd rfl hpath
  | cons part path => simp [List.intercalate_cons_cons]

theorem lookupPath_eq_some_iff {v : Json} :
    lookupPath lookup names = some v ↔ StandsFor lookup names v := by
  constructor
  · intro h
    unfold lookupPath at h
    split at h
    · next w hw =>
      obtain rfl := Option.some.inj h
      exact .whole hw
    · next hnone =>
      obtain ⟨⟨name, rest⟩, hcut, h⟩ := Option.bind_eq_some_iff.1 h
      obtain ⟨w, hname, hv⟩ := Option.bind_eq_some_iff.1 h
      obtain ⟨hne, hdots, hrest⟩ := splitAt_eq_iff.1 (rfl : splitAt '.' rest = splitAt '.' rest)
      obtain ⟨hnames, hdot⟩ := cutAt_eq_some hcut
      refine .part hnone ?_ hne (List.forall_mem_cons.2 ⟨hdot, hdots⟩) hname
        (descend?_eq_some_iff.1 hv)
      rw [intercalate_cons hne, ← hrest]
      exact hnames
  · rintro (hwhole | ⟨hnone, rfl, hne, hdots, hname, hv⟩)
    · rw [lookupPath, hwhole]
    · obtain ⟨hdot, hdots⟩ := List.forall_mem_cons.1 hdots
      rw [lookupPath, hnone, intercalate_cons hne, cutAt_append hdot]
      simp only [Option.bind_eq_bind, Option.bind_some, hname]
      rw [splitAt_eq_iff.2 ⟨hne, hdots, rfl⟩]
      exact descend?_eq_some_iff.2 hv

/-! ## Random values -/

/-- The expressions that stand for random values. -/
inductive Random : List Char → Prop
  | integer : Random "rand.int".toList
  | bool : Random "rand.bool".toList
  | range {low high : List Char} :
    isWholeNumber (trim low) → isWholeNumber (trim high) →
      Random ("rand.int(".toList ++ (low ++ ',' :: high ++ [')']))

theorem dropStart?_eq_some_iff {start rest : List Char} :
    dropStart? start s = some rest ↔ s = start ++ rest := by
  fun_induction dropStart? start s with
  | case1 s => simp [eq_comm]
  | case2 c start => simp
  | case3 start c s ih => simp [ih]
  | case4 c start d s hne => simp [Ne.symm hne]

theorem comma_not_mem_of_isWholeNumber {low : List Char} (h : isWholeNumber (trim low)) :
    ',' ∉ low := by
  intro hmem
  have hcomma : ',' ∈ trim low := mem_trim_of_not_blank hmem (by decide)
  have hdigits : ∀ {digits : List Char}, ',' ∈ digits → digits.all isDecimalDigit = true → False :=
    fun hd hall => absurd (List.all_eq_true.1 hall ',' hd) (by decide)
  unfold isWholeNumber at h
  obtain ⟨-, hall⟩ := Bool.and_eq_true_iff.1 h
  split at hall
  · next rest hs =>
    rw [hs] at hcomma
    exact hdigits ((List.mem_cons.1 hcomma).resolve_left (by decide)) hall
  · next rest hs =>
    rw [hs] at hcomma
    exact hdigits ((List.mem_cons.1 hcomma).resolve_left (by decide)) hall
  · exact hdigits hcomma hall

theorem rangeEnds?_isSome_iff :
    (rangeEnds? s).isSome ↔ ∃ low high, s = "rand.int(".toList ++ (low ++ ',' :: high ++ [')']) ∧
      isWholeNumber (trim low) ∧ isWholeNumber (trim high) := by
  constructor
  · intro h
    obtain ⟨ends, h⟩ := Option.isSome_iff_exists.1 h
    obtain ⟨rest, hrest, h⟩ := Option.bind_eq_some_iff.1 h
    split at h
    · next hlast =>
      obtain ⟨⟨low, high⟩, hcut, h⟩ := Option.bind_eq_some_iff.1 h
      have hnumbers : (isWholeNumber (trim low) && isWholeNumber (trim high)) = true := by
        refine Decidable.byContradiction fun hnot => ?_
        simp only [if_neg hnot] at h
        cases h
      obtain ⟨hlow, hhigh⟩ := Bool.and_eq_true_iff.1 hnumbers
      refine ⟨low, high, ?_, hlow, hhigh⟩
      rw [dropStart?_eq_some_iff.1 hrest, ← (cutAt_eq_some hcut).1]
      obtain ⟨init, rfl⟩ := List.getLast?_eq_some_iff.1 hlast
      rw [List.dropLast_concat]
    · cases h
  · rintro ⟨low, high, rfl, hlow, hhigh⟩
    have hcut := cutAt_append (comma_not_mem_of_isWholeNumber hlow) high
    rw [rangeEnds?, dropStart?_eq_some_iff.2 rfl]
    simp only [Option.bind_eq_bind, Option.bind_some, List.getLast?_append, List.getLast?_singleton,
      Option.some_or, if_true, List.dropLast_concat, hcut, hlow, hhigh, Bool.and_self]
    rfl

/-- An expression is a name or a path if it stands for no random value. -/
theorem read_eq_path_iff : Expression.read e = .path (trim e) ↔ ¬ Random (trim e) := by
  constructor
  · intro h hrandom
    unfold Expression.read at h
    generalize trim e = t at h hrandom
    cases hrandom with
    | integer => cases h
    | bool => cases h
    | @range low high hlow hhigh =>
      obtain ⟨ends, hends⟩ := Option.isSome_iff_exists.1
        (rangeEnds?_isSome_iff.2 ⟨low, high, rfl, hlow, hhigh⟩)
      simp only [hends] at h
      simp at h
  · intro h
    have hint : trim e ≠ "rand.int".toList := fun he => h (he ▸ .integer)
    have hbool : trim e ≠ "rand.bool".toList := fun he => h (he ▸ .bool)
    have hrange : rangeEnds? (trim e) = none := by
      refine Option.not_isSome_iff_eq_none.1 fun hsome => h ?_
      obtain ⟨low, high, hs, hlow, hhigh⟩ := rangeEnds?_isSome_iff.1 hsome
      exact hs ▸ .range hlow hhigh
    simp only [Expression.read, hint, hbool, hrange, if_false]

/-! ## Lines -/

/-- A placeholder and the text behind it. -/
structure Segment where
  expression : List Char
  behind : List Char

/-- A text and the segments behind it. -/
def assembled (first : List Char) (segments : List Segment) : List Char :=
  first ++ segments.flatMap fun x => verbatim x.expression ++ x.behind

/-- Nothing in a segment can be taken for a placeholder but the placeholder. -/
structure Segment.Clear (x : Segment) : Prop where
  expression_ne_nil : x.expression ≠ []
  brace_not_mem : '}' ∉ x.expression
  behind_unmarked : Unmarked x.behind

instance : DecidablePred Unmarked := fun s =>
  inferInstanceAs (Decidable (¬ ['$', '{'] <:+: s))

instance : DecidablePred Segment.Clear := fun x =>
  decidable_of_iff (x.expression ≠ [] ∧ '}' ∉ x.expression ∧ Unmarked x.behind)
    ⟨fun h => ⟨h.1, h.2.1, h.2.2⟩, fun h => ⟨h.1, h.2, h.3⟩⟩

/-- In front of a dollar sign, too, a reader goes over an unmarked text. -/
theorem piecesFrom_append_dollar {t : List Char} (acc rest : List Char) :
    (Unmarked t → piecesFrom (.plain acc) (t ++ '$' :: rest) =
        piecesFrom (.dollar (t.reverse ++ acc)) rest) ∧
      (Unmarked ('$' :: t) → piecesFrom (.dollar acc) (t ++ '$' :: rest) =
        piecesFrom (.dollar (t.reverse ++ '$' :: acc)) rest) := by
  induction t generalizing acc with
  | nil => exact ⟨fun _ => rfl, fun _ => rfl⟩
  | cons c t ih =>
    have hreverse (more : List Char) : (c :: t).reverse ++ more = t.reverse ++ c :: more := by
      simp
    constructor
    · intro ht
      rw [List.cons_append, piecesFrom, hreverse]
      split
      · next hc =>
        subst hc
        exact (ih acc).2 ht
      · exact (ih (c :: acc)).1 ht.tail
    · intro ht
      rw [List.cons_append, piecesFrom, if_neg ht.ne_brace, hreverse]
      split
      · next hc =>
        subst hc
        exact (ih ('$' :: acc)).2 ht.tail
      · exact (ih (c :: '$' :: acc)).1 ht.tail.tail

theorem piecesFrom_inside (text acc : List Char) (he : '}' ∉ e) (hne : acc ≠ [] ∨ e ≠ [])
    (rest : List Char) :
    piecesFrom (.inside text acc) (e ++ '}' :: rest) =
      .plain text.reverse :: .placeholder (acc.reverse ++ e) :: pieces rest := by
  induction e generalizing acc with
  | nil =>
    have hacc : acc.isEmpty = false := by simpa using hne
    simp [piecesFrom, hacc, pieces]
  | cons c e ih =>
    obtain ⟨hc, he⟩ := not_or.1 (mt List.mem_cons.2 he)
    rw [List.cons_append, piecesFrom, if_neg (Ne.symm hc),
      ih (c :: acc) he (.inl (List.cons_ne_nil c acc)), List.reverse_cons, List.append_assoc]
    rfl

/-- The pieces of a line are what it was assembled of. -/
theorem pieces_assembled {first : List Char} {segments : List Segment} (hfirst : Unmarked first)
    (hclear : ∀ x ∈ segments, x.Clear) :
    pieces (assembled first segments) =
      .plain first :: segments.flatMap fun x => [.placeholder x.expression, .plain x.behind] := by
  induction segments generalizing first with
  | nil =>
    have hend : ∀ c : Char, ([] : List Char).head? = some c → c ≠ '$' ∧ c ≠ '{' := by simp
    have hread := (piecesFrom_append hend []).1 hfirst
    simpa [pieces, assembled, piecesFrom] using hread
  | cons x segments ih =>
    obtain ⟨hx, hclear⟩ := List.forall_mem_cons.1 hclear
    have hline : assembled first (x :: segments) =
        first ++ '$' :: '{' :: (x.expression ++ '}' :: assembled x.behind segments) := by
      simp [assembled, verbatim]
    rw [hline, pieces, (piecesFrom_append_dollar [] _).1 hfirst, piecesFrom, if_pos rfl,
      piecesFrom_inside _ [] hx.brace_not_mem (.inr hx.expression_ne_nil),
      ih hx.behind_unmarked hclear]
    simp

/-- What stands in a line for the placeholder of an expression: the text of the value that it
stands for, or the placeholder as it is. -/
inductive Replaces (lookup : String → Option Json) (e : List Char) : List Char → Prop
  | value {v : Json} : StandsFor lookup (trim e) v → Replaces lookup e (insertText v)
  | nothing : (∀ v, ¬ StandsFor lookup (trim e) v) → Replaces lookup e (verbatim e)

/-- A text that is assembled of the segments with every placeholder replaced. -/
inductive Replaced (lookup : String → Option Json) : List Segment → List Char → Prop
  | nil : Replaced lookup [] []
  | cons {x : Segment} {segments : List Segment} {r rest : List Char} :
    Replaces lookup x.expression r → Replaced lookup segments rest →
      Replaced lookup (x :: segments) (r ++ x.behind ++ rest)

/-- A placeholder is replaced with what it stands for, and no chance is taken. -/
theorem replaces_evaluate (lookup : String → Option Json) (h : ¬ Random (trim e)) (g : Generator) :
    Replaces lookup e (((Expression.read e).evaluate lookup g).1.getD (verbatim e)) ∧
      ((Expression.read e).evaluate lookup g).2 = g := by
  rw [read_eq_path_iff.2 h, Expression.evaluate]
  refine ⟨?_, rfl⟩
  cases hfound : lookupPath lookup (trim e) with
  | none =>
    refine .nothing fun v hv => ?_
    rw [lookupPath_eq_some_iff.2 hv] at hfound
    cases hfound
  | some v => exact .value (lookupPath_eq_some_iff.1 hfound)

theorem substitutePieces_segments (lookup : String → Option Json) {segments : List Segment}
    (hpaths : ∀ x ∈ segments, ¬ Random (trim x.expression)) (g : Generator) :
    Replaced lookup segments (substitutePieces lookup g
        (segments.flatMap fun x => [.placeholder x.expression, .plain x.behind])).1 ∧
      (substitutePieces lookup g
        (segments.flatMap fun x => [.placeholder x.expression, .plain x.behind])).2 = g := by
  induction segments with
  | nil => exact ⟨.nil, rfl⟩
  | cons x segments ih =>
    obtain ⟨hx, hpaths⟩ := List.forall_mem_cons.1 hpaths
    obtain ⟨hreplaces, hchance⟩ := replaces_evaluate lookup hx g
    obtain ⟨hreplaced, hrest⟩ := ih hpaths
    simp only [List.flatMap_cons, List.cons_append, List.nil_append, substitutePieces, hchance]
    exact ⟨List.append_assoc _ _ _ ▸ .cons hreplaces hreplaced, hrest⟩

/-- A line is replaced in one pass: what stands between its placeholders is kept, each of them is
replaced with what its expression stands for or left as it is, and what a value holds is not read
again.  No chance is taken. -/
theorem substitute_assembled {first : List Char} {segments : List Segment}
    (hfirst : Unmarked first) (hclear : ∀ x ∈ segments, x.Clear)
    (hpaths : ∀ x ∈ segments, ¬ Random (trim x.expression)) (g : Generator) :
    ∃ text, Replaced lookup segments text ∧
      substitute lookup (String.ofList (assembled first segments)) g =
        (String.ofList (first ++ text), g) := by
  obtain ⟨hreplaced, hchance⟩ := substitutePieces_segments lookup hpaths g
  refine ⟨_, hreplaced, ?_⟩
  rw [substitute, String.toList_ofList, pieces_assembled hfirst hclear]
  simp only [substitutePieces, hchance]

/-- Variables of which one holds what looks like a placeholder and one has a dot in its name. -/
def sampleVariables : List (String × Json) :=
  [("x", .string "$\x7bx\x7d"), ("a.b", .bool true),
    ("cfg", .fields [("hosts", .array [.integer 1, .string "two words"])])]

/-- The segments of `${ cfg.hosts.1 }} ${x} ${a.b}${cfg.port}${a${b}`. -/
def sampleSegments : List Segment :=
  [⟨" cfg.hosts.1 ".toList, "\x7d ".toList⟩, ⟨"x".toList, " ".toList⟩, ⟨"a.b".toList, []⟩,
    ⟨"cfg.port".toList, []⟩, ⟨"a$\x7bb".toList, []⟩]

/-- Behind a dollar sign these become `two words} ${x} true${cfg.port}${a${b}`. -/
theorem substitute_sampleSegments :
    (∃ text, Replaced (fun name => Assoc.get? name sampleVariables) sampleSegments text ∧
      substitute (fun name => Assoc.get? name sampleVariables)
        (String.ofList (assembled ['$'] sampleSegments)) (.seed 0) =
          (String.ofList (['$'] ++ text), .seed 0)) ∧
    (substitute (fun name => Assoc.get? name sampleVariables)
      (String.ofList (assembled ['$'] sampleSegments)) (.seed 0)).1 =
        "$two words\x7d $\x7bx\x7d true$\x7bcfg.port\x7d$\x7ba$\x7bb\x7d" := by
  have hpaths : ∀ x ∈ sampleSegments,
      Expression.read x.expression = .path (trim x.expression) := by decide
  exact ⟨substitute_assembled (by decide) (by decide)
    (fun x hx => read_eq_path_iff.1 (hpaths x hx)) (.seed 0), by decide⟩

end CommandShell.Line
