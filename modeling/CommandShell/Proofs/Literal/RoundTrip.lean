import CommandShell.Coercion.Basic
import CommandShell.Proofs.Literal.Splitting
import Mathlib.Data.List.Perm.Subperm
/-!
# Writing collection literals and reading them back

A literal is written as its parts in brackets with commas between them, and every string in
double quotes.  Reading takes the quotes off each item once, before the item is read as an entry
or as a literal of its own.  So the quotes protect a string from the outer splitting and from
nothing behind it, and a string survives exactly if it needs no protection there.

    the map written from pairs reads back as the pairs
      ↔ every key and value is plain, no key holds a top-level colon, and every key is balanced
                                                                   (mapText_reads_back_iff)
    the list of lists written from xss reads back as xss
      ↔ every list of xss is plain, uncut and balanced             (nestedListText_reads_back_iff)
-/

namespace CommandShell.Literal

open CommandShell.Text CommandShell.Line

/-! ## Writing -/

/-- A literal: its parts in brackets with commas between them. -/
def bracketed (b : Bracket) (parts : List (List Char)) : List Char :=
  b.opening :: [','].intercalate parts ++ [b.closing]

/-- An entry of a map with both sides in double quotes. -/
def quotedEntry (key value : List Char) : List Char := doubleQuoted key ++ ':' :: doubleQuoted value

/-- The map literal of the pairs. -/
def mapText (pairs : List (String × String)) : String :=
  String.ofList (bracketed .curly (pairs.map fun (k, v) => quotedEntry k.toList v.toList))

/-- The list literal of the lists, with every string in double quotes. -/
def nestedListText (xss : List (List String)) : String :=
  String.ofList
    (bracketed .square
      (xss.map fun xs => bracketed .square (xs.map fun x => doubleQuoted x.toList)))

/-- A text that trimming and unquoting leave as it is: no blank around it, no quote mark in it,
and no backslash but at its end. -/
def Plain (s : List Char) : Prop :=
  ((∀ c ∈ s.head?, isBlank c = false) ∧ ∀ c ∈ s.getLast?, isBlank c = false) ∧
    (∀ c ∈ s, c ≠ '\'' ∧ c ≠ '"') ∧ ∀ c ∈ s.dropLast, c ≠ '\\'

-- The instances are named, since another one decides such a statement by trying every character.
instance (s : List Char) : Decidable (Plain s) :=
  have (o : Option Char) : Decidable (∀ c ∈ o, isBlank c = false) := Option.decidableForallMem o
  have : Decidable (∀ c ∈ s, c ≠ '\'' ∧ c ≠ '"') := List.decidableBAll _ s
  have : Decidable (∀ c ∈ s.dropLast, c ≠ '\\') := List.decidableBAll _ s.dropLast
  inferInstanceAs (Decidable ((_ ∧ _) ∧ _ ∧ _))

theorem length_unquote_trim_le (s : List Char) : (unquote (trim s)).length ≤ s.length :=
  Nat.le_trans (length_unquote_le _) (trim_sublist s).length_le

theorem unquote_trim_eq_self_iff (s : List Char) : unquote (trim s) = s ↔ Plain s := by
  have hplain : Plain s ↔ trim s = s ∧ unquote s = s := by
    rw [trim_eq_self_iff, unquote_eq_self_iff]
    rfl
  rw [hplain]
  constructor
  · intro h
    have hlen := length_unquote_le (trim s)
    rw [h] at hlen
    have ht := (trim_sublist s).eq_of_length_le hlen
    rw [ht] at h
    exact ⟨ht, h⟩
  · rintro ⟨ht, hu⟩
    rw [ht, hu]

/-! ## Quoted texts and the splitter

Whatever a quoted text holds, the splitter finds no mark in it and comes out where it went in. -/

/-- Read at any depth, the text is uncut and leaves the depth as it is. -/
def Inert (mark : Char) (s : List Char) : Prop :=
  ∀ d, Uncut mark ⟨.start, d⟩ s ∧ Place.advanceAll ⟨.start, d⟩ s = ⟨.start, d⟩

theorem Inert.append {mark : Char} {s t : List Char} (hs : Inert mark s) (ht : Inert mark t) :
    Inert mark (s ++ t) := by
  intro d
  rw [uncut_append, Place.advanceAll_append, (hs d).2]
  exact ⟨⟨(hs d).1, (ht d).1⟩, (ht d).2⟩

theorem Inert.closed {mark : Char} {s : List Char} (h : Inert mark s) : Closed mark s := h 0

theorem protect_in_quotes (mark : Char) (d : Nat) (s : List Char) :
    Uncut mark ⟨.reading .double, d⟩ (protect s) ∧
      Place.advanceAll ⟨.reading .double, d⟩ (protect s) = ⟨.reading .double, d⟩ := by
  have hq : (⟨.reading .double, d⟩ : Place) ≠ .start := by simp [Place.start, Mode.start]
  have he : (⟨.escaping .double, d⟩ : Place) ≠ .start := by simp [Place.start, Mode.start]
  induction s with
  | nil => exact ⟨trivial, rfl⟩
  | cons c s ih =>
    by_cases hc : c = '\\' ∨ c = '"'
    · have h1 : Place.advance ⟨.reading .double, d⟩ '\\' = ⟨.escaping .double, d⟩ := rfl
      have h2 : Place.advance ⟨.escaping .double, d⟩ c = ⟨.reading .double, d⟩ := rfl
      simp only [protect, hc, if_true, Uncut, Place.advanceAll_cons, h1, h2]
      exact ⟨⟨fun h => hq h.1, fun h => he h.1, ih.1⟩, ih.2⟩
    · have h1 : Place.advance ⟨.reading .double, d⟩ c = ⟨.reading .double, d⟩ := by
        simp [Place.advance, Mode.bare, advance_double hc]
      simp only [protect, hc, if_false, Uncut, Place.advanceAll_cons, h1]
      exact ⟨⟨fun h => hq h.1, ih.1⟩, ih.2⟩

theorem inert_doubleQuoted {mark : Char} (h : IsMark mark) (s : List Char) :
    Inert mark (doubleQuoted s) := by
  intro d
  have hmark : '"' ≠ mark := h.2.2.2.2.symm
  have hopen : Place.advance ⟨.start, d⟩ '"' = ⟨.reading .double, d⟩ := rfl
  have hclose : Place.advance ⟨.reading .double, d⟩ '"' = ⟨.start, d⟩ := rfl
  obtain ⟨hu, hp⟩ := protect_in_quotes mark d s
  have hd : doubleQuoted s = '"' :: (protect s ++ ['"']) := rfl
  rw [hd, Uncut, Place.advanceAll_cons, hopen, uncut_append, Place.advanceAll_append, hp]
  refine ⟨⟨fun hc => hmark hc.2, hu, fun hc => hmark hc.2, trivial⟩, ?_⟩
  rw [Place.advanceAll_cons, hclose, Place.advanceAll_nil]

theorem inert_singleton {mark c : Char} (hc : IsMark c) (hne : c ≠ mark) : Inert mark [c] := by
  intro d
  refine ⟨⟨fun h => hne h.2, trivial⟩, ?_⟩
  have hm : Mode.start.advance c = .start := congrArg Place.mode (advance_mark hc)
  simp [Place.advance, hm, hc.1, hc.2.1]

theorem inert_quotedEntry (key value : List Char) : Inert ',' (quotedEntry key value) := by
  have hcolon : Inert ',' [':'] := inert_singleton isMark_colon (by decide)
  have := (inert_doubleQuoted isMark_comma key).append
    (hcolon.append (inert_doubleQuoted isMark_comma value))
  simpa [quotedEntry] using this

/-- Inside brackets commas do not cut either. -/
theorem uncut_intercalate_of_inert {parts : List (List Char)} (h : ∀ p ∈ parts, Inert ',' p)
    (d : Nat) :
    Uncut ',' ⟨.start, d + 1⟩ ([','].intercalate parts) ∧
      Place.advanceAll ⟨.start, d + 1⟩ ([','].intercalate parts) = ⟨.start, d + 1⟩ := by
  induction parts with
  | nil => exact ⟨trivial, rfl⟩
  | cons p parts ih =>
    have hp := h p List.mem_cons_self (d + 1)
    cases parts with
    | nil => rwa [List.intercalate_singleton]
    | cons q parts =>
      obtain ⟨hu, ha⟩ := ih fun r hr => h r (List.mem_cons_of_mem _ hr)
      have hcomma : Place.advance ⟨.start, d + 1⟩ ',' = ⟨.start, d + 1⟩ := rfl
      rw [List.intercalate_cons_cons, List.append_assoc, uncut_append, Place.advanceAll_append,
        hp.2, List.singleton_append, Uncut, Place.advanceAll_cons, hcomma]
      exact ⟨⟨hp.1, fun hc => by simp [Place.start] at hc, hu⟩, ha⟩

theorem closed_bracketed {b : Bracket} {parts : List (List Char)} (h : ∀ p ∈ parts, Inert ',' p) :
    Closed ',' (bracketed b parts) := by
  have hopen : Place.start.advance b.opening = ⟨.start, 1⟩ := by cases b <;> rfl
  have hclose : Place.advance ⟨.start, 1⟩ b.closing = .start := by cases b <;> rfl
  have hne : b.opening ≠ ',' ∧ b.closing ≠ ',' := by cases b <;> decide
  obtain ⟨hu, ha⟩ := uncut_intercalate_of_inert h 0
  constructor
  · rw [bracketed, List.cons_append, Uncut, hopen, uncut_append, ha]
    exact ⟨fun hc => hne.1 hc.2, hu, fun hc => hne.2 hc.2, trivial⟩
  · rw [Balanced, bracketed, List.cons_append, Place.advanceAll_cons, hopen,
      Place.advanceAll_append, ha, Place.advanceAll_cons, hclose, Place.advanceAll_nil]

/-! ## Reading the written text -/

/-- A text that begins and ends with no blank loses nothing to trimming. -/
theorem trim_cons_append {c d : Char} (hc : isBlank c = false) (hd : isBlank d = false)
    (s : List Char) : trim (c :: s ++ [d]) = c :: s ++ [d] := by
  rw [trim_eq_self_iff]
  refine ⟨fun x hx => ?_, fun x hx => ?_⟩
  · rw [List.cons_append, List.head?_cons, Option.some.injEq] at hx
    rwa [← hx]
  · rw [List.getLast?_append, List.getLast?_singleton, Option.some_or, Option.some.injEq] at hx
    rwa [← hx]

theorem bracket_not_blank (b : Bracket) :
    isBlank b.opening = false ∧ isBlank b.closing = false := by
  cases b <;> decide

theorem trim_bracketed (b : Bracket) (parts : List (List Char)) :
    trim (bracketed b parts) = bracketed b parts :=
  trim_cons_append (bracket_not_blank b).1 (bracket_not_blank b).2 _

theorem trim_quotedEntry (key value : List Char) :
    trim (quotedEntry key value) = quotedEntry key value := by
  have : quotedEntry key value =
      '"' :: (protect key ++ '"' :: ':' :: '"' :: protect value) ++ ['"'] := by
    simp [quotedEntry, doubleQuoted]
  rw [this]
  exact trim_cons_append (by decide) (by decide) _

theorem unwrap_bracketed (b : Bracket) (parts : List (List Char)) :
    unwrap (bracketed b parts) = some (b, [','].intercalate parts) := by
  have hopen : Bracket.ofOpening? b.opening = some b := by cases b <;> rfl
  rw [unwrap, trim_bracketed]
  simp [bracketed, hopen]

theorem writes_quotedEntry (key value : List Char) :
    Writes (quotedEntry key value) (key ++ ':' :: value) := by
  have hcolon : Writes [':'] [':'] := writes_singleton (by decide) (by decide) (by decide)
  exact (writes_doubleQuoted key).append (hcolon.append (writes_doubleQuoted value))

theorem writes_intercalate_doubleQuoted (xs : List (List Char)) :
    Writes ([','].intercalate (xs.map doubleQuoted)) ([','].intercalate xs) := by
  induction xs with
  | nil => exact fun t => rfl
  | cons x xs ih =>
    cases xs with
    | nil =>
      rw [List.map_singleton, List.intercalate_singleton, List.intercalate_singleton]
      exact writes_doubleQuoted x
    | cons y ys =>
      have hcomma : Writes [','] [','] := writes_singleton (by decide) (by decide) (by decide)
      rw [List.map_cons, List.map_cons, List.intercalate_cons_cons, List.intercalate_cons_cons]
      exact ((writes_doubleQuoted x).append hcomma).append ih

theorem writes_bracketed (b : Bracket) (xs : List (List Char)) :
    Writes (bracketed b (xs.map doubleQuoted)) (bracketed b xs) := by
  have hopen : Writes [b.opening] [b.opening] := by
    cases b <;> exact writes_singleton (by decide) (by decide) (by decide)
  have hclose : Writes [b.closing] [b.closing] := by
    cases b <;> exact writes_singleton (by decide) (by decide) (by decide)
  exact (hopen.append (writes_intercalate_doubleQuoted xs)).append hclose

/-- Closed parts are the items of the text that they make, each trimmed and unquoted. -/
theorem items_of_closed {parts : List (List Char)} (hne : parts ≠ [])
    (h : ∀ p ∈ parts, Closed ',' p) (hblank : trim ([','].intercalate parts) ≠ []) :
    items ([','].intercalate parts) = parts.map fun p => unquote (trim p) := by
  have hsplit : splitTop ',' ([','].intercalate parts) = parts :=
    (splitTop_intercalate_iff isMark_comma hne).2
      ⟨fun p hp => (h p hp).1, fun p hp => (h p (List.dropLast_subset _ hp)).2⟩
  rw [items, if_neg (by simpa using hblank), hsplit]

/-- Parts that splitting and trimming leave alone come back unquoted. -/
theorem items_intercalate {parts : List (List Char)}
    (h : ∀ p ∈ parts, Closed ',' p ∧ trim p = p ∧ p ≠ []) :
    items ([','].intercalate parts) = parts.map unquote := by
  cases parts with
  | nil => rfl
  | cons p parts =>
    have hne : trim ([','].intercalate (p :: parts)) ≠ [] := by
      intro hblank
      obtain ⟨-, htrim, hp⟩ := h p List.mem_cons_self
      apply hp
      rw [← htrim, trim_eq_nil_iff]
      intro c hc
      apply (trim_eq_nil_iff _).1 hblank
      cases parts with
      | nil => rwa [List.intercalate_singleton]
      | cons q parts =>
        rw [List.intercalate_cons_cons]
        simp [hc]
    rw [items_of_closed (List.cons_ne_nil p parts) (fun q hq => (h q hq).1) hne]
    apply List.map_congr_left
    intro q hq
    rw [(h q hq).2.1]

/-! ## What survives the reading

Trimming and unquoting make no part longer.  So when the items of a text, joined again, give the
text, no part lost anything, and the text was cut where its parts were joined. -/

theorem length_intercalate_map_le (mark : Char) {f : List Char → List Char}
    (hf : ∀ p, (f p).length ≤ p.length) (ps : List (List Char)) :
    ([mark].intercalate (ps.map f)).length ≤ ([mark].intercalate ps).length := by
  induction ps with
  | nil => simp
  | cons p ps ih =>
    cases ps with
    | nil => simpa using hf p
    | cons q ps =>
      have := hf p
      simp only [List.map_cons, List.intercalate_cons_cons, List.length_append] at ih ⊢
      omega

theorem map_eq_self_of_intercalate (mark : Char) {f : List Char → List Char}
    (hf : ∀ p, (f p).length ≤ p.length) (ps : List (List Char))
    (h : [mark].intercalate (ps.map f) = [mark].intercalate ps) : ps.map f = ps := by
  induction ps with
  | nil => rfl
  | cons p ps ih =>
    cases ps with
    | nil => simpa using h
    | cons q ps =>
      simp only [List.map_cons, List.intercalate_cons_cons, List.append_assoc] at h
      have hrest := length_intercalate_map_le mark hf (q :: ps)
      have hp := hf p
      have hlen := congrArg List.length h
      simp only [List.length_append, List.map_cons] at hlen hrest
      obtain ⟨hp, htail⟩ := List.append_inj h (by omega)
      rw [List.map_cons, hp, ih (List.append_cancel_left htail)]

/-- Texts joined by commas come back as they are if each is plain and uncut and all but the last
are balanced; a single empty text is no item. -/
theorem items_intercalate_eq_iff (xs : List (List Char)) :
    items ([','].intercalate xs) = xs ↔
      xs ≠ [[]] ∧ (∀ x ∈ xs, Plain x ∧ Uncut ',' .start x) ∧ ∀ x ∈ xs.dropLast, Balanced x := by
  by_cases hblank : trim ([','].intercalate xs) = []
  · rw [items, if_pos (by simpa using hblank)]
    match xs with
    | [] => simp
    | [x] =>
      have hx : Plain x → x = [] := by
        intro h
        rw [List.intercalate_singleton] at hblank
        rw [← (unquote_trim_eq_self_iff x).2 h, hblank]
        rfl
      simp only [List.mem_singleton, forall_eq, reduceCtorEq, false_iff, not_and]
      intro hne h
      exact absurd (by rw [hx h.1]) hne
    | x :: y :: xs =>
      have hcomma : isBlank ',' = true := by
        apply (trim_eq_nil_iff _).1 hblank
        rw [List.intercalate_cons_cons]
        simp
      cases hcomma
  · have hne : xs ≠ [] := by
      rintro rfl
      exact hblank rfl
    have hne' : xs ≠ [[]] := by
      rintro rfl
      exact hblank rfl
    rw [items, if_neg (by simpa using hblank)]
    constructor
    · intro h
      have hjoin := intercalate_splitTop isMark_comma ([','].intercalate xs)
      have hself := map_eq_self_of_intercalate ',' length_unquote_trim_le
        (splitTop ',' ([','].intercalate xs)) (by rw [h, hjoin])
      have hsplit := hself.symm.trans h
      obtain ⟨hu, hb⟩ := (splitTop_intercalate_iff isMark_comma hne).1 hsplit
      refine ⟨hne', fun x hx => ⟨?_, hu x hx⟩, hb⟩
      rw [hsplit] at hself
      rw [← unquote_trim_eq_self_iff]
      exact List.map_inj_left.1 (hself.trans (List.map_id' xs).symm) x hx
    · rintro ⟨-, hx, hb⟩
      rw [(splitTop_intercalate_iff isMark_comma hne).2 ⟨fun x h => (hx x h).2, hb⟩]
      refine Eq.trans (List.map_congr_left fun x h => ?_) (List.map_id' xs)
      exact (unquote_trim_eq_self_iff x).2 (hx x h).1

/-- Key and value joined by a colon come back as they are if both are plain and the colon between
them is the first at the top level. -/
theorem entry?_eq_some_iff (key value : List Char) :
    entry? (key ++ ':' :: value) = some (key, value) ↔
      Plain key ∧ Plain value ∧ Closed ':' key := by
  unfold entry?
  rw [Option.map_eq_some_iff]
  constructor
  · rintro ⟨⟨k, v⟩, hcut, heq⟩
    obtain ⟨he, hk⟩ := (cutEntry_eq_some_iff _ _ _).1 hcut
    simp only [Prod.mk.injEq] at heq
    obtain ⟨h1, h2⟩ := heq
    have hklen := length_unquote_trim_le k
    have hvlen := length_unquote_trim_le v
    have hlen := congrArg List.length he
    rw [h1] at hklen
    rw [h2] at hvlen
    simp only [List.length_append, List.length_cons] at hlen
    obtain ⟨rfl, hv⟩ := List.append_inj he (by omega)
    cases hv
    exact ⟨(unquote_trim_eq_self_iff key).1 h1, (unquote_trim_eq_self_iff value).1 h2, hk⟩
  · rintro ⟨h1, h2, hk⟩
    refine ⟨(key, value), (cutEntry_eq_some_iff _ _ _).2 ⟨rfl, hk⟩, ?_⟩
    show (unquote (trim key), unquote (trim value)) = (key, value)
    rw [(unquote_trim_eq_self_iff key).2 h1, (unquote_trim_eq_self_iff value).2 h2]

end CommandShell.Literal

namespace CommandShell.Coercions

open CommandShell.Text CommandShell.Line CommandShell.Literal

/-! ## Reading a written map -/

theorem ofText_bracketed (b : Bracket) (parts : List (List Char)) (type : ValueType) :
    Collection.ofText (String.ofList (bracketed b parts)) type =
      .ofInner b ([','].intercalate parts) := by
  rw [Collection.ofText, String.toList_ofList, unwrap_bracketed]

theorem ofText_mapText (pairs : List (String × String)) (type : ValueType) :
    Collection.ofText (mapText pairs) type =
      ⟨.curly, pairs.map fun (k, v) => String.ofList (k.toList ++ ':' :: v.toList)⟩ := by
  have hitems : items ([','].intercalate (pairs.map fun (k, v) => quotedEntry k.toList v.toList)) =
      pairs.map fun (k, v) => k.toList ++ ':' :: v.toList := by
    rw [items_intercalate, List.map_map]
    · exact List.map_congr_left fun (k, v) _ => (writes_quotedEntry k.toList v.toList).unquote
    · intro p hp
      obtain ⟨⟨k, v⟩, -, rfl⟩ := List.mem_map.1 hp
      exact ⟨(inert_quotedEntry _ _).closed, trim_quotedEntry _ _,
        by simp [quotedEntry, doubleQuoted]⟩
  rw [mapText, ofText_bracketed, Collection.ofInner, hitems, List.map_map]
  rfl

/-- What a written map is read as, whatever its strings hold: the entries unquoted, each cut at
its first top-level colon and unquoted again. -/
theorem read_mapText (pairs : List (String × String)) :
    builtin.read (.map .str) (mapText pairs) =
      ((readEach (Collection.readEntry (builtin.read .str))
        (pairs.map fun (k, v) => String.ofList (k.toList ++ ':' :: v.toList))).map
          Assoc.ofPairs).map Value.map := by
  rw [builtin_read_eq_convert rfl, ofText_mapText]
  rfl

theorem readEntry_str_eq_ok_iff (k v : String) (e : String × Value) :
    Collection.readEntry (builtin.read .str) (String.ofList (k.toList ++ ':' :: v.toList)) = .ok e ↔
      ∃ a b, entry? (k.toList ++ ':' :: v.toList) = some (a, b) ∧
        e = (String.ofList a, .str (String.ofList b)) := by
  rw [Collection.readEntry, String.toList_ofList]
  cases entry? (k.toList ++ ':' :: v.toList) with
  | none => simp
  | some ab =>
    obtain ⟨a, b⟩ := ab
    have hread : builtin.read .str (String.ofList b) = .ok (.str (String.ofList b)) := rfl
    simp [hread, eq_comm]

/-- As many distinct entries as pairs were put means that the pairs had distinct keys. -/
theorem ofPairs_eq_self_of_length {α : Type} {pairs : List (String × α)}
    (h : (Assoc.ofPairs pairs).length = pairs.length) : Assoc.ofPairs pairs = pairs := by
  rw [Assoc.ofPairs_eq_self_iff]
  have hsub : Assoc.keys (Assoc.ofPairs pairs) ⊆ Assoc.keys pairs := by
    intro k hk
    obtain ⟨e, he, rfl⟩ := List.mem_map.1 hk
    exact List.mem_map.2 ⟨e, Assoc.mem_of_mem_ofPairs he, rfl⟩
  have hperm := (Assoc.nodup_keys_ofPairs pairs).subperm hsub |>.perm_of_length_le
    (by simp [Assoc.keys, h])
  exact hperm.nodup_iff.1 (Assoc.nodup_keys_ofPairs pairs)

/-- An entry survives the second reading if both sides are plain and the colon between them is the
first at the top level. -/
theorem readEntry_eq_self_iff (k v : String) :
    Collection.readEntry (builtin.read .str) (String.ofList (k.toList ++ ':' :: v.toList)) =
        .ok (k, .str v) ↔
      Plain k.toList ∧ Plain v.toList ∧ Closed ':' k.toList := by
  rw [readEntry_str_eq_ok_iff, ← entry?_eq_some_iff]
  constructor
  · rintro ⟨a, b, hab, he⟩
    simp only [Prod.mk.injEq, Value.str.injEq] at he
    rw [hab, he.1, he.2, String.toList_ofList, String.toList_ofList]
  · intro hab
    exact ⟨_, _, hab, by simp⟩

theorem readEntries_eq_self_iff (pairs : List (String × String)) :
    readEach (Collection.readEntry (builtin.read .str))
        (pairs.map fun (k, v) => String.ofList (k.toList ++ ':' :: v.toList)) =
          .ok (pairs.map fun (k, v) => (k, .str v)) ↔
      ∀ kv ∈ pairs, Plain kv.1.toList ∧ Plain kv.2.toList ∧ Closed ':' kv.1.toList := by
  rw [readEach_eq_ok_iff, List.map_map, List.map_map, List.map_inj_left]
  exact forall_congr' fun kv => imp_congr_right fun _ => readEntry_eq_self_iff kv.1 kv.2

/-- **Written maps.**  The literal written from pairs with distinct keys reads back as these pairs
in their order exactly if every key and every value is plain and the colon behind each key is the
first at the top level of its entry. -/
theorem mapText_reads_back_iff (pairs : List (String × String)) (h : (pairs.map Prod.fst).Nodup) :
    builtin.read (.map .str) (mapText pairs) =
        .ok (.map (pairs.map fun (k, v) => (k, .str v))) ↔
      ∀ kv ∈ pairs, Plain kv.1.toList ∧ Plain kv.2.toList ∧ Closed ':' kv.1.toList := by
  rw [read_mapText, ← readEntries_eq_self_iff]
  constructor
  · intro hread
    cases heq : readEach (Collection.readEntry (builtin.read .str))
        (pairs.map fun (k, v) => String.ofList (k.toList ++ ':' :: v.toList)) with
    | error e => rw [heq] at hread; cases hread
    | ok es =>
      rw [heq] at hread
      have hes : Assoc.ofPairs es = pairs.map fun (k, v) => (k, Value.str v) := by
        simpa [Except.map] using hread
      have hlen : es.length = pairs.length := by
        have := congrArg List.length ((readEach_eq_ok_iff _ _ _).1 heq)
        simpa using this.symm
      rw [← hes, ofPairs_eq_self_of_length (by rw [hes, hlen, List.length_map])]
  · intro hread
    have hkeys : (Assoc.keys (pairs.map fun (k, v) => (k, Value.str v))).Nodup := by
      rw [Assoc.keys, List.map_map]
      exact h
    rw [hread]
    show Except.ok (Value.map (Assoc.ofPairs _)) = _
    rw [(Assoc.ofPairs_eq_self_iff _).2 hkeys]

theorem mapText_reads_back_commas_and_brackets :
    ([("k, 1", "a:b"), ("[x:y]", "]")].map Prod.fst).Nodup ∧
      builtin.read (.map .str) (mapText [("k, 1", "a:b"), ("[x:y]", "]")]) =
        .ok (.map [("k, 1", .str "a:b"), ("[x:y]", .str "]")]) :=
  ⟨by decide, (mapText_reads_back_iff _ (by decide)).2 (by decide)⟩

/-- A colon in a key is protected from nothing: the key ends there. -/
theorem mapText_colon_in_key_lost :
    ¬ ∀ pairs : List (String × String), (pairs.map Prod.fst).Nodup →
      builtin.read (.map .str) (mapText pairs) =
        .ok (.map (pairs.map fun (k, v) => (k, .str v))) := by
  intro h
  have hread : builtin.read (.map .str) (mapText [("a:b", "c")]) =
      .ok (.map [("a", .str "b:c")]) := rfl
  have := h [("a:b", "c")] (by decide)
  rw [hread] at this
  simp at this

/-! ## Reading a written list of lists -/

theorem ofText_nestedListText (xss : List (List String)) (type : ValueType) :
    Collection.ofText (nestedListText xss) type =
      ⟨.square, xss.map fun xs => String.ofList (bracketed .square (xs.map String.toList))⟩ := by
  have hquoted : ∀ xs : List String,
      (xs.map fun x => doubleQuoted x.toList) = (xs.map String.toList).map doubleQuoted := by
    intro xs
    rw [List.map_map]
    rfl
  have hitems : items ([','].intercalate
        (xss.map fun xs => bracketed .square (xs.map fun x => doubleQuoted x.toList))) =
      xss.map fun xs => bracketed .square (xs.map String.toList) := by
    rw [items_intercalate, List.map_map]
    · refine List.map_congr_left fun xs _ => ?_
      rw [Function.comp_apply, hquoted]
      exact (writes_bracketed .square (xs.map String.toList)).unquote
    · intro p hp
      obtain ⟨xs, -, rfl⟩ := List.mem_map.1 hp
      refine ⟨closed_bracketed fun q hq => ?_, trim_bracketed _ _, by simp [bracketed]⟩
      obtain ⟨x, -, rfl⟩ := List.mem_map.1 hq
      exact inert_doubleQuoted isMark_comma x.toList
  rw [nestedListText, ofText_bracketed, Collection.ofInner, hitems, List.map_map]
  rfl

theorem read_strings (text : String) :
    builtin.read (.list .str) text =
      .ok (.list (((Collection.ofText text (.list .str)).items.map
        (Collection.elementText (Collection.ofText text (.list .str)).bracket)).map .str)) := by
  have heach : ∀ xs : List String, readEach (builtin.read .str) xs = .ok (xs.map .str) := by
    intro xs
    rw [readEach_eq_ok_iff, List.map_map]
    rfl
  rw [builtin_read_eq_convert rfl]
  show (readEach (builtin.read .str) _).map Value.list = _
  rw [heach]
  rfl

/-- What a written list of lists is read as, whatever its strings hold: every inner list is cut
and unquoted again after its quotes are gone. -/
theorem read_nestedListText (xss : List (List String)) :
    builtin.read (.list (.list .str)) (nestedListText xss) =
      .ok (.list (xss.map fun xs =>
        .list ((items ([','].intercalate (xs.map String.toList))).map
          fun x => .str (String.ofList x)))) := by
  have hinner : ∀ xs : List String,
      builtin.read (.list .str) (String.ofList (bracketed .square (xs.map String.toList))) =
        .ok (.list ((items ([','].intercalate (xs.map String.toList))).map
          fun x => .str (String.ofList x))) := by
    intro xs
    rw [read_strings, ofText_bracketed]
    simp [Collection.ofInner, Collection.elementText, Function.comp_def]
  rw [builtin_read_eq_convert rfl, ofText_nestedListText]
  show (readEach (builtin.read (.list .str)) _).map Value.list = _
  rw [(readEach_eq_ok_iff _ _ (xss.map fun xs =>
    .list ((items ([','].intercalate (xs.map String.toList))).map
      fun x => .str (String.ofList x)))).2]
  · rfl
  · simp only [List.map_map]
    refine List.map_congr_left fun xs _ => ?_
    simp only [Function.comp_apply, Collection.elementText, hinner]

/-- The strings of an inner list that come through the second reading. -/
theorem items_strings_eq_iff (xs : List String) :
    ((items ([','].intercalate (xs.map String.toList))).map fun x => Value.str (String.ofList x)) =
        xs.map .str ↔
      xs ≠ [""] ∧ (∀ x ∈ xs, Plain x.toList ∧ Uncut ',' .start x.toList) ∧
        ∀ x ∈ xs.dropLast, Balanced x.toList := by
  have hchars : ((items ([','].intercalate (xs.map String.toList))).map
        fun x => Value.str (String.ofList x)) = xs.map .str ↔
      items ([','].intercalate (xs.map String.toList)) = xs.map String.toList := by
    constructor
    · intro h
      have := congrArg (List.map fun v => (Value.str? v).getD "" |>.toList) h
      simpa [Function.comp_def, Value.str?] using this
    · intro h
      rw [h]
      simp [Function.comp_def]
  have hsingle : xs.map String.toList = [[]] ↔ xs = [""] := by
    constructor
    · intro h
      have := congrArg (List.map String.ofList) h
      simpa [Function.comp_def] using this
    · rintro rfl
      rfl
  rw [hchars, items_intercalate_eq_iff, ne_eq, hsingle, ← List.map_dropLast]
  simp only [List.forall_mem_map]

/-- **Written lists of lists.**  The literal written from a list of lists of strings reads back
as that list exactly if in each inner list every string is plain and holds no top-level comma,
all but the last are balanced, and the list is not a single empty string. -/
theorem nestedListText_reads_back_iff (xss : List (List String)) :
    builtin.read (.list (.list .str)) (nestedListText xss) =
        .ok (.list (xss.map fun xs => .list (xs.map .str))) ↔
      ∀ xs ∈ xss, xs ≠ [""] ∧ (∀ x ∈ xs, Plain x.toList ∧ Uncut ',' .start x.toList) ∧
        ∀ x ∈ xs.dropLast, Balanced x.toList := by
  rw [read_nestedListText]
  simp only [Except.ok.injEq, Value.list.injEq, List.map_inj_left]
  exact forall_congr' fun xs => imp_congr_right fun _ => items_strings_eq_iff xs

/-- A comma in an inner string is protected from the outer splitting alone. -/
theorem nestedListText_comma_lost :
    ¬ ∀ xss : List (List String),
      builtin.read (.list (.list .str)) (nestedListText xss) =
        .ok (.list (xss.map fun xs => .list (xs.map .str))) := by
  intro h
  have hread : builtin.read (.list (.list .str)) (nestedListText [["a,b"]]) =
      .ok (.list [.list [.str "a", .str "b"]]) := rfl
  have := h [["a,b"]]
  rw [hread] at this
  simp at this

end CommandShell.Coercions
