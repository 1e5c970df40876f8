import CommandShell.Coercion.Basic
import CommandShell.Parse.Failure
/-!
# Parsing strategies

A strategy turns the argument text of a call into one value for each parameter.  It says at
registration which parameters it can serve.  Commands name their strategy, so a set of
strategies is a map from names.

    repeatedFlag [] [] ps = none ↔ no two of ps share a letter or a long name
                                                                   (repeatedFlag_eq_none_iff)
-/

namespace CommandShell

/-- An order in which tables of literals are walked.  A table keeps none of its own: it is walked in
some order, which nothing settles and which may be another one for the next table. -/
structure TableOrder where
  walk : List (Nat × Collection) → List (Nat × Collection)
  perm : ∀ table, (walk table).Perm table

/-- The order in which a table was filled. -/
def TableOrder.asFilled : TableOrder := ⟨id, List.Perm.refl⟩

/-- What a strategy may use besides the parameters and the text. -/
structure ParseContext where
  coercions : Coercions
  /-- The value supplied for an ambient type, by its name. -/
  preset : String → Option Value
  /-- The order of the table that the strategy walks, if it walks one. -/
  order : TableOrder

/-- The value that the surroundings supply for a parameter; only ambient ones have one. -/
def ParseContext.presetFor (ctx : ParseContext) (p : Parameter) : Option Value :=
  match p.type with
  | .ambient name => ctx.preset name
  | _ => none

structure Strategy where
  /-- What keeps the strategy from serving the parameters, if anything does. -/
  mismatch : List Parameter → Option Mismatch
  /-- One value for each parameter, in order. -/
  parse : List Parameter → String → ParseContext → Except ParseFailure (List Value)

/-- Strategies by the name under which commands ask for them. -/
abbrev StrategySet := List (String × Strategy)

namespace Strategy

def defaultName : String := "default"

def positionalName : String := "positional"

def rawName : String := "raw"

def collectionName : String := "collection"

/-- The first letter that two of the parameters share, or long name, whichever comes first. -/
def repeatedFlag (shorts : List Char) (longs : List String) : List Parameter → Option Mismatch
  | [] => none
  | p :: rest =>
    match p.short.filter (· ∈ shorts), p.long.filter (· ∈ longs) with
    | some c, _ => some (.shortTwice c)
    | none, some name => some (.longTwice name)
    | none, none => repeatedFlag (p.short.toList ++ shorts) (p.long.toList ++ longs) rest

/-- What every strategy with flags or names asks: no letter and no long name twice, at most one
joint parameter. -/
def flagMismatch (ps : List Parameter) : Option Mismatch :=
  (repeatedFlag [] [] ps).or
    (if 1 < (ps.filter (·.joint)).length then some .secondJoint else none)

/-- No two of the parameters share a letter or a long name. -/
structure DistinctFlags (ps : List Parameter) : Prop where
  shorts : ps.Pairwise fun p q => ∀ c, p.short = some c → q.short ≠ some c
  longs : ps.Pairwise fun p q => ∀ name, p.long = some name → q.long ≠ some name

/-! ## Lemmas -/

theorem repeatedFlag_eq_none_iff_of_seen (shorts : List Char) (longs : List String)
    (ps : List Parameter) :
    repeatedFlag shorts longs ps = none ↔
      (∀ p ∈ ps, (∀ c, p.short = some c → c ∉ shorts) ∧ ∀ name, p.long = some name → name ∉ longs) ∧
        DistinctFlags ps := by
  induction ps generalizing shorts longs with
  | nil => exact ⟨fun _ => ⟨by simp, .nil, .nil⟩, fun _ => rfl⟩
  | cons p ps ih =>
    have hstep : repeatedFlag shorts longs (p :: ps) = none ↔
        (∀ c, p.short = some c → c ∉ shorts) ∧ (∀ name, p.long = some name → name ∉ longs) ∧
          repeatedFlag (p.short.toList ++ shorts) (p.long.toList ++ longs) ps = none := by
      rw [repeatedFlag]
      cases hs : p.short.filter (· ∈ shorts) with
      | some c =>
        simp only [Option.filter_eq_some_iff, decide_eq_true_eq] at hs
        simp [hs]
      | none =>
        have hs' : ∀ c, p.short = some c → c ∉ shorts := by
          simpa [Option.filter_eq_none_iff] using hs
        cases hl : p.long.filter (· ∈ longs) with
        | some name =>
          simp only [Option.filter_eq_some_iff, decide_eq_true_eq] at hl
          simp [hl]
        | none =>
          have hl' : ∀ name, p.long = some name → name ∉ longs := by
            simpa [Option.filter_eq_none_iff] using hl
          exact ⟨fun h => ⟨hs', hl', h⟩, fun h => h.2.2⟩
    rw [hstep, ih]
    constructor
    · rintro ⟨hs, hl, hall, hd⟩
      refine ⟨fun q hq => ?_, .cons (fun q hq c hp => ?_) hd.shorts,
        .cons (fun q hq name hp => ?_) hd.longs⟩
      · rcases List.mem_cons.1 hq with rfl | hq
        · exact ⟨hs, hl⟩
        · exact ⟨fun c hc hm => (hall q hq).1 c hc (List.mem_append_right _ hm),
            fun name hn hm => (hall q hq).2 name hn (List.mem_append_right _ hm)⟩
      · exact fun hc => (hall q hq).1 c hc (by simp [hp])
      · exact fun hn => (hall q hq).2 name hn (by simp [hp])
    · rintro ⟨hall, hd⟩
      obtain ⟨hs, hl⟩ := hall p List.mem_cons_self
      obtain ⟨hps, hds⟩ := List.pairwise_cons.1 hd.shorts
      obtain ⟨hpl, hdl⟩ := List.pairwise_cons.1 hd.longs
      refine ⟨hs, hl, fun q hq => ⟨fun c hc hm => ?_, fun name hn hm => ?_⟩, hds, hdl⟩
      · rcases List.mem_append.1 hm with hm | hm
        · exact hps q hq c (by simpa using hm) hc
        · exact (hall q (List.mem_cons_of_mem _ hq)).1 c hc hm
      · rcases List.mem_append.1 hm with hm | hm
        · exact hpl q hq name (by simpa using hm) hn
        · exact (hall q (List.mem_cons_of_mem _ hq)).2 name hn hm

theorem repeatedFlag_eq_none_iff (ps : List Parameter) :
    repeatedFlag [] [] ps = none ↔ DistinctFlags ps := by
  rw [repeatedFlag_eq_none_iff_of_seen]
  simp

theorem distinctFlags_of_mismatch {ps : List Parameter} (h : flagMismatch ps = none) :
    DistinctFlags ps :=
  (repeatedFlag_eq_none_iff ps).1 (Option.or_eq_none_iff.1 h).1

theorem eq_of_pairwise {α : Type} {r : α → α → Prop} {l : List α} (h : l.Pairwise r) {i j : Nat}
    {a b : α} (hi : l[i]? = some a) (hj : l[j]? = some b) (hab : ¬ r a b) (hba : ¬ r b a) :
    i = j := by
  obtain ⟨hilt, rfl⟩ := List.getElem?_eq_some_iff.1 hi
  obtain ⟨hjlt, rfl⟩ := List.getElem?_eq_some_iff.1 hj
  rw [List.pairwise_iff_getElem] at h
  rcases Nat.lt_trichotomy i j with hlt | heq | hgt
  · exact absurd (h i j hilt hjlt hlt) hab
  · exact heq
  · exact absurd (h j i hjlt hilt hgt) hba

/-- What stands before an item, the item, and what stands behind it. -/
theorem take_append_cons_drop {α : Type} {l : List α} {i : Nat} {a : α} (h : l[i]? = some a) :
    l.take i ++ a :: l.drop (i + 1) = l := by
  obtain ⟨hi, rfl⟩ := List.getElem?_eq_some_iff.1 h
  rw [List.getElem_cons_drop, List.take_append_drop]

namespace DistinctFlags

variable {ps : List Parameter} {i j : Nat} {p q : Parameter}

theorem eq_of_short (h : DistinctFlags ps) (hi : ps[i]? = some p) (hj : ps[j]? = some q) {c : Char}
    (hp : p.short = some c) (hq : q.short = some c) : i = j :=
  eq_of_pairwise h.shorts hi hj (fun hne => hne c hp hq) fun hne => hne c hq hp

theorem eq_of_long (h : DistinctFlags ps) (hi : ps[i]? = some p) (hj : ps[j]? = some q)
    {name : String} (hp : p.long = some name) (hq : q.long = some name) : i = j :=
  eq_of_pairwise h.longs hi hj (fun hne => hne name hp hq) fun hne => hne name hq hp

end DistinctFlags

end Strategy

end CommandShell
