import CommandShell.Json.Reading
/-!
# What a JSON text must hold

Each string of a value takes two quote marks in its text, and each quote mark or backslash of the
string takes one more mark, escaped as it may be.  So a text has at least as many marks as its
value asks for.  The reader is followed mark by mark: what it has collected never asks for more
than it has seen.

    parse? s = some v → need (texts v) ≤ marks s                            (need_le_of_parse?)
-/

namespace CommandShell.Json

open CommandShell.Text

/-- How many quote marks and backslashes a text holds. -/
def marks (s : List Char) : Nat := s.countP fun c => c = '"' || c = '\\'

mutual

/-- The strings and the names of fields in a value. -/
def texts : Json → List (List Char)
  | string s => [s.toList]
  | array items => itemTexts items
  | fields named => fieldTexts named
  | _ => []

def itemTexts : List Json → List (List Char)
  | [] => []
  | v :: vs => texts v ++ itemTexts vs

def fieldTexts : List (String × Json) → List (List Char)
  | [] => []
  | (k, v) :: rest => k.toList :: (texts v ++ fieldTexts rest)

end

/-- The marks that strings take in any JSON text: their quote marks, and one for each mark in
them. -/
def need : List (List Char) → Nat
  | [] => 0
  | t :: ts => 2 + marks t + need ts

/-! ## Counting -/

section Counting

variable {a b : List Char} {ts us : List (List Char)}

@[simp] theorem marks_nil : marks [] = 0 := rfl

@[simp] theorem marks_append : marks (a ++ b) = marks a + marks b := List.countP_append

theorem marks_cons (c : Char) (s : List Char) : marks (c :: s) = marks [c] + marks s :=
  marks_append (a := [c])

theorem marks_singleton_le (c : Char) : marks [c] ≤ 1 := List.countP_le_length

theorem marks_singleton_eq_zero {c : Char} (hquote : c ≠ '"') (hslash : c ≠ '\\') :
    marks [c] = 0 := by
  simp [marks, hquote, hslash]

@[simp] theorem need_nil : need [] = 0 := rfl

@[simp] theorem need_cons (t : List Char) : need (t :: ts) = 2 + marks t + need ts := rfl

@[simp] theorem need_append : need (ts ++ us) = need ts + need us := by
  induction ts with
  | nil => simp
  | cons t ts ih => simp [ih, Nat.add_assoc]

end Counting

/-! ## The scanner -/

/-- The marks that a written character takes: a unit may stand for any character. -/
def Piece.marks : Piece → Nat
  | .plain c => Json.marks [c]
  | .unit _ => 1

/-- The marks that the inside of a written string takes. -/
def pieceMarks : List Piece → Nat
  | [] => 0
  | p :: pieces => p.marks + pieceMarks pieces

@[simp] theorem pieceMarks_cons (p : Piece) (pieces : List Piece) :
    pieceMarks (p :: pieces) = p.marks + pieceMarks pieces := rfl

theorem pieceMarks_append (ps qs : List Piece) :
    pieceMarks (ps ++ qs) = pieceMarks ps + pieceMarks qs := by
  induction ps with
  | nil => simp [pieceMarks]
  | cons p ps ih => simp [ih, Nat.add_assoc]

@[simp] theorem pieceMarks_reverse (pieces : List Piece) :
    pieceMarks pieces.reverse = pieceMarks pieces := by
  induction pieces with
  | nil => rfl
  | cons p pieces ih => simp [pieceMarks_append, ih, pieceMarks, Nat.add_comm]

/-- The marks that a lexeme takes. -/
def Lexeme.need : Lexeme → Nat
  | .string pieces => 2 + pieceMarks pieces
  | _ => 0

/-- The marks that lexemes take. -/
def needAll : List Lexeme → Nat
  | [] => 0
  | l :: ls => l.need + needAll ls

@[simp] theorem needAll_nil : needAll [] = 0 := rfl

@[simp] theorem needAll_cons (l : Lexeme) (ls : List Lexeme) :
    needAll (l :: ls) = l.need + needAll ls := rfl

@[simp] theorem needAll_append (ls more : List Lexeme) :
    needAll (ls ++ more) = needAll ls + needAll more := by
  induction ls with
  | nil => simp
  | cons l ls ih => simp [ih, Nat.add_assoc]

/-- The marks that the scanner has seen and not yet handed on. -/
def Scan.seen : Scan → Nat
  | .word _ lexeme => lexeme.need
  | .string pieces => 1 + pieceMarks pieces
  | .escape pieces => 2 + pieceMarks pieces
  | .hex pieces _ _ => 2 + pieceMarks pieces
  | _ => 0

theorem Scan.need_enter {c : Char} {next : Scan} {found : List Lexeme}
    (h : Scan.enter c = some (next, found)) : needAll found + next.seen ≤ marks [c] := by
  unfold Scan.enter at h
  split at h
  · cases h
    exact Nat.zero_le _
  · split at h
    · next hc =>
      cases h
      rw [hc]
      exact Nat.le_refl 1
    · split at h
      · cases h
        exact Nat.zero_le _
      · split at h <;> cases h <;> exact Nat.zero_le _

/-- One character pays for what the scanner collects with it. -/
theorem Scan.need_read {scan next : Scan} {c : Char} {found : List Lexeme}
    (h : scan.read c = some (next, found)) :
    needAll found + next.seen ≤ scan.seen + marks [c] := by
  cases scan with
  | between =>
    have hseen := need_enter h
    have hnone : Scan.between.seen = 0 := rfl
    omega
  | word missing lexeme =>
    match missing, h with
    | [last], h =>
      rw [Scan.read] at h
      split at h
      · cases h
        simp only [needAll_cons, needAll_nil, Scan.seen]
        omega
      · cases h
    | following :: last :: missing, h =>
      rw [Scan.read] at h
      split at h
      · cases h
        simp only [needAll_nil, Scan.seen]
        omega
      · cases h
      · simp
  | numeral chars =>
    rw [Scan.read] at h
    split at h
    · cases h
      exact Nat.zero_le _
    · obtain ⟨n, -, h⟩ := Option.bind_eq_some_iff.1 h
      obtain ⟨⟨after, more⟩, henter, h⟩ := Option.bind_eq_some_iff.1 h
      cases h
      have hseen := need_enter henter
      have hnone : Lexeme.need (.numeral n) = 0 := rfl
      rw [needAll_cons]
      omega
  | string pieces =>
    rw [Scan.read] at h
    split at h
    · next hc =>
      cases h
      have hmark : marks [c] = 1 := by rw [hc]; rfl
      simp only [needAll_cons, needAll_nil, Lexeme.need, pieceMarks_reverse, Scan.seen]
      omega
    · split at h
      · next hc =>
        cases h
        have hmark : marks [c] = 1 := by rw [hc]; rfl
        simp only [needAll_nil, Scan.seen]
        omega
      · split at h
        · cases h
        · cases h
          simp only [needAll_nil, Scan.seen, pieceMarks_cons, Piece.marks]
          omega
  | escape pieces =>
    rw [Scan.read] at h
    split at h
    · cases h
      simp only [needAll_nil, Scan.seen]
      omega
    · obtain ⟨d, -, h⟩ := Option.map_eq_some_iff.1 h
      cases h
      -- whatever the escape stands for, its backslash has paid for it
      have hone := marks_singleton_le d
      simp only [needAll_nil, Scan.seen, pieceMarks_cons, Piece.marks]
      omega
  | hex pieces missing value =>
    cases missing with
    | zero =>
      obtain ⟨d, -, h⟩ := Option.map_eq_some_iff.1 h
      cases h
      simp only [needAll_nil, Scan.seen, pieceMarks_cons, Piece.marks]
      omega
    | succ missing =>
      obtain ⟨d, -, h⟩ := Option.map_eq_some_iff.1 h
      cases h
      simp only [needAll_nil, Scan.seen]
      omega

theorem need_lexemesFrom {scan : Scan} {s : List Char} {ls : List Lexeme}
    (h : lexemesFrom scan s = some ls) : needAll ls ≤ scan.seen + marks s := by
  induction s generalizing scan ls with
  | nil =>
    cases scan with
    | between =>
      cases h
      exact Nat.zero_le _
    | numeral chars =>
      obtain ⟨n, -, rfl⟩ := Option.map_eq_some_iff.1 h
      exact Nat.zero_le _
    | _ => cases h
  | cons c s ih =>
    rw [lexemesFrom] at h
    split at h
    · cases h
    · next next found hread =>
      obtain ⟨more, hmore, rfl⟩ := Option.map_eq_some_iff.1 h
      have hone := Scan.need_read hread
      have hrest := ih hmore
      rw [needAll_append, marks_cons]
      omega

/-! ## The builder -/

mutual

/-- The marks that a document takes. -/
def Document.need : Document → Nat
  | .string pieces => 2 + pieceMarks pieces
  | .array items => needItems items
  | .object named => needNamed named
  | _ => 0

def needItems : List Document → Nat
  | [] => 0
  | d :: rest => d.need + needItems rest

def needNamed : List (List Piece × Document) → Nat
  | [] => 0
  | (name, d) :: rest => 2 + pieceMarks name + d.need + needNamed rest

end

/-- The marks that open containers take, each waiting for what its innermost one holds. -/
def needFrames : List Frame → Nat
  | [] => 0
  | .array items :: frames => needItems items + needFrames frames
  | .object named name :: frames => needNamed named + (2 + pieceMarks name) + needFrames frames

def Expect.need : Expect → Nat
  | .firstName named => needNamed named
  | .name named => needNamed named
  | .colon named key => needNamed named + (2 + pieceMarks key)
  | .nothing whole => whole.need
  | _ => 0

/-- The marks that a build takes.  Behind a field the name of its frame has been taken already. -/
def Build.need (b : Build) : Nat :=
  match b.expect, b.frames with
  | .separator, .object named _ :: frames => needNamed named + needFrames frames
  | expect, frames => expect.need + needFrames frames

theorem needItems_append (ds es : List Document) :
    needItems (ds ++ es) = needItems ds + needItems es := by
  induction ds with
  | nil => simp [needItems]
  | cons d ds ih => simp only [List.cons_append, needItems, ih, Nat.add_assoc]

theorem needNamed_append (ds es : List (List Piece × Document)) :
    needNamed (ds ++ es) = needNamed ds + needNamed es := by
  induction ds with
  | nil => simp [needNamed]
  | cons d ds ih => simp only [List.cons_append, needNamed, ih, Nat.add_assoc]

theorem needItems_reverse (ds : List Document) : needItems ds.reverse = needItems ds := by
  induction ds with
  | nil => rfl
  | cons d ds ih =>
    rw [List.reverse_cons, needItems_append, ih]
    simp only [needItems]
    omega

theorem needNamed_reverse (ds : List (List Piece × Document)) :
    needNamed ds.reverse = needNamed ds := by
  induction ds with
  | nil => rfl
  | cons d ds ih =>
    rw [List.reverse_cons, needNamed_append, ih]
    simp only [needNamed]
    omega

theorem Build.need_deliver (value : Document) (frames : List Frame) :
    (Build.deliver value frames).need = value.need + needFrames frames := by
  cases frames with
  | nil => simp only [deliver, Build.need, Expect.need, needFrames]
  | cons f frames =>
    cases f with
    | array items =>
      simp only [deliver, Build.need, Expect.need, needFrames, needItems]
      omega
    | object named name =>
      simp only [deliver, Build.need, needFrames, needNamed]
      omega

theorem Build.need_begin {frames : List Frame} {l : Lexeme} {b : Build}
    (h : Build.begin frames l = some b) : b.need = l.need + needFrames frames := by
  cases l with
  | null => cases h; exact Build.need_deliver .null frames
  | bool t => cases h; exact Build.need_deliver (.bool t) frames
  | numeral n => cases h; exact Build.need_deliver (.numeral n) frames
  | string pieces => cases h; exact Build.need_deliver (.string pieces) frames
  | arrayOpen =>
    cases h
    simp only [Build.need, Expect.need, needFrames, needItems, Lexeme.need, Nat.zero_add]
  | objectOpen =>
    cases h
    simp only [Build.need, Expect.need, needNamed, Lexeme.need]
  | _ => cases h

/-- In an array that has just been opened a value may begin. -/
theorem Build.read_firstItem {l : Lexeme} (hl : l ≠ .arrayClose) (frames : List Frame) :
    Build.read ⟨frames, .firstItem⟩ l = Build.begin frames l := by
  unfold Build.read
  split <;> simp_all

/-- A lexeme is put into the build with all that it takes. -/
theorem Build.need_read {b next : Build} {l : Lexeme} (h : b.read l = some next) :
    next.need = b.need + l.need := by
  obtain ⟨frames, expect⟩ := b
  cases expect with
  | value =>
    rw [need_begin h]
    simp only [Build.need, Expect.need]
    omega
  | firstItem =>
    by_cases hl : l = .arrayClose
    · subst hl
      match frames, h with
      | .array items :: frames, h =>
        cases h
        rw [need_deliver]
        simp only [Build.need, Expect.need, needFrames, Lexeme.need, Document.need,
          needItems_reverse]
        omega
    · rw [read_firstItem hl] at h
      rw [need_begin h]
      simp only [Build.need, Expect.need]
      omega
  | separator =>
    match frames, l, h with
    | .array items :: frames, .comma, h =>
      cases h
      simp only [Build.need, Expect.need, needFrames, Lexeme.need, Nat.add_zero]
    | .array items :: frames, .arrayClose, h =>
      cases h
      rw [need_deliver]
      simp only [Build.need, Expect.need, needFrames, Lexeme.need, Document.need, needItems_reverse]
      omega
    | .object named name :: frames, .comma, h =>
      cases h
      simp only [Build.need, Expect.need, Lexeme.need, Nat.add_zero]
    | .object named name :: frames, .objectClose, h =>
      cases h
      rw [need_deliver]
      simp only [Build.need, Lexeme.need, Document.need, needNamed_reverse, Nat.add_zero]
  | firstName named =>
    cases l with
    | objectClose =>
      cases h
      rw [need_deliver]
      simp only [Build.need, Expect.need, Lexeme.need, Document.need, needNamed_reverse,
        Nat.add_zero]
    | string name =>
      cases h
      simp only [Build.need, Expect.need, Lexeme.need]
      omega
    | _ => cases h
  | name named =>
    cases l with
    | string name =>
      cases h
      simp only [Build.need, Expect.need, Lexeme.need]
      omega
    | _ => cases h
  | colon named name =>
    cases l with
    | colon =>
      cases h
      simp only [Build.need, Expect.need, needFrames, Lexeme.need]
      omega
    | _ => cases h
  | nothing whole => cases h

theorem Build.need_readAll {b last : Build} {ls : List Lexeme} (h : b.readAll ls = some last) :
    last.need = b.need + needAll ls := by
  induction ls generalizing b with
  | nil =>
    cases h
    rfl
  | cons l ls ih =>
    obtain ⟨next, hread, hall⟩ := Option.bind_eq_some_iff.1 h
    rw [ih hall, need_read hread, needAll_cons, Nat.add_assoc]

/-- The document of a text takes no more marks than there are. -/
theorem need_le_of_documentParse? {s : List Char} {d : Document} (h : Document.parse? s = some d) :
    d.need ≤ marks s := by
  unfold Document.parse? at h
  split at h
  · next whole frames hread =>
    cases h
    obtain ⟨ls, hlexemes, hall⟩ := Option.bind_eq_some_iff.1 hread
    have hneed := Build.need_readAll hall
    have hmarks := need_lexemesFrom hlexemes
    have hstart : Scan.between.seen = 0 := rfl
    simp only [Build.need, Expect.need, needFrames] at hneed
    omega
  · cases h

/-! ## The value -/

theorem marks_le_of_pieceText? {pieces : List Piece} {t : List Char}
    (h : pieceText? pieces = some t) : marks t ≤ pieceMarks pieces := by
  fun_induction pieceText? pieces generalizing t with
  | case1 =>
    cases h
    exact Nat.le_refl 0
  | case2 c rest ih =>
    obtain ⟨u, hu, rfl⟩ := Option.map_eq_some_iff.1 h
    have := ih hu
    rw [marks_cons, pieceMarks_cons, Piece.marks]
    omega
  | case3 high low rest _ _ ih =>
    obtain ⟨u, hu, rfl⟩ := Option.map_eq_some_iff.1 h
    have hone := marks_singleton_le
      (Char.ofNat (0x10000 + (high - 0xD800) * 0x400 + (low - 0xDC00)))
    have hrest := ih hu
    rw [marks_cons]
    simp only [pieceMarks_cons, Piece.marks]
    omega
  | case4 => cases h
  | case5 => cases h
  | case6 high low rest _ _ ih =>
    obtain ⟨u, hu, rfl⟩ := Option.map_eq_some_iff.1 h
    have hone := marks_singleton_le (Char.ofNat high)
    have hrest := ih hu
    rw [marks_cons, pieceMarks_cons, Piece.marks]
    omega
  | case7 => cases h
  | case8 n rest _ _ ih =>
    obtain ⟨u, hu, rfl⟩ := Option.map_eq_some_iff.1 h
    have hone := marks_singleton_le (Char.ofNat n)
    have hrest := ih hu
    rw [marks_cons, pieceMarks_cons, Piece.marks]
    omega

theorem marks_le_of_stringOf? {pieces : List Piece} {s : String} (h : stringOf? pieces = some s) :
    marks s.toList ≤ pieceMarks pieces := by
  obtain ⟨t, ht, rfl⟩ := Option.map_eq_some_iff.1 h
  rw [String.toList_ofList]
  exact marks_le_of_pieceText? ht

/-- Putting a field into its place takes no more than the field and the others. -/
theorem need_putSorted (k : String) (v : Json) (named : List (String × Json)) :
    need (fieldTexts (Assoc.putSorted k v named)) ≤
      2 + marks k.toList + need (texts v) + need (fieldTexts named) := by
  induction named with
  | nil => simp [Assoc.putSorted, fieldTexts]
  | cons p named ih =>
    obtain ⟨j, w⟩ := p
    rw [Assoc.putSorted]
    split
    · simp only [fieldTexts, need_cons, need_append]
      omega
    · split
      · simp only [fieldTexts, need_cons, need_append]
        omega
      · simp only [fieldTexts, need_cons, need_append]
        omega

theorem need_foldl_putSorted (named found : List (String × Json)) :
    need (fieldTexts (named.foldl (fun m p => Assoc.putSorted p.1 p.2 m) found)) ≤
      need (fieldTexts named) + need (fieldTexts found) := by
  induction named generalizing found with
  | nil => simp [fieldTexts]
  | cons p named ih =>
    obtain ⟨k, v⟩ := p
    have hput := need_putSorted k v found
    have hrest := ih (Assoc.putSorted k v found)
    simp only [List.foldl_cons, fieldTexts, need_cons, need_append]
    omega

/-- An object takes no more than its fields, of which those of one name come down to one. -/
theorem need_sorted_le (named : List (String × Json)) :
    need (fieldTexts (Assoc.sorted named)) ≤ need (fieldTexts named) :=
  need_foldl_putSorted named []

theorem texts_of_value? {n : Numeral} {v : Json} (h : n.value? = some v) : texts v = [] := by
  have hfloat : ∀ {x : Option Float}, x.map Json.float = some v → texts v = [] := by
    intro x hx
    obtain ⟨y, -, rfl⟩ := Option.map_eq_some_iff.1 hx
    rfl
  unfold Numeral.value? at h
  dsimp only at h
  split at h
  · split at h
    · split at h
      · cases h
        rfl
      · exact hfloat h
    · split at h
      · cases h
        rfl
      · exact hfloat h
  · exact hfloat h

mutual

theorem need_le_of_ofDocument? {room : Nat} : (d : Document) → {v : Json} →
    ofDocument? room d = some v → need (texts v) ≤ d.need
  | .null, _, h => by cases h; exact Nat.zero_le _
  | .bool _, _, h => by cases h; exact Nat.zero_le _
  | .numeral n, _, h => by
    have hnone := texts_of_value? (n := n) h
    rw [hnone]
    exact Nat.zero_le _
  | .string pieces, _, h => by
    obtain ⟨s, hs, rfl⟩ := Option.map_eq_some_iff.1 h
    have := marks_le_of_stringOf? hs
    simp only [texts, need_cons, need_nil, Document.need]
    omega
  | .array items, _, h => by
    rw [ofDocument?] at h
    split at h
    · cases h
    · obtain ⟨vs, hvs, rfl⟩ := Option.map_eq_some_iff.1 h
      exact need_le_of_itemsOf? items hvs
  | .object named, _, h => by
    rw [ofDocument?] at h
    split at h
    · cases h
    · obtain ⟨fields, hfields, rfl⟩ := Option.map_eq_some_iff.1 h
      exact Nat.le_trans (need_sorted_le fields) (need_le_of_fieldsOf? named hfields)

theorem need_le_of_itemsOf? {room : Nat} : (ds : List Document) → {vs : List Json} →
    itemsOf? room ds = some vs → need (itemTexts vs) ≤ needItems ds
  | [], _, h => by cases h; exact Nat.zero_le _
  | d :: rest, _, h => by
    rw [itemsOf?] at h
    split at h
    · next v vs hv hvs =>
      cases h
      have hfirst := need_le_of_ofDocument? d hv
      have hrest := need_le_of_itemsOf? rest hvs
      simp only [itemTexts, need_append, needItems]
      omega
    · cases h

theorem need_le_of_fieldsOf? {room : Nat} : (ds : List (List Piece × Document)) →
    {named : List (String × Json)} → fieldsOf? room ds = some named →
    need (fieldTexts named) ≤ needNamed ds
  | [], _, h => by cases h; exact Nat.zero_le _
  | (name, d) :: rest, _, h => by
    rw [fieldsOf?] at h
    split at h
    · next k v vs hk hv hvs =>
      cases h
      have hname := marks_le_of_stringOf? hk
      have hfirst := need_le_of_ofDocument? d hv
      have hrest := need_le_of_fieldsOf? rest hvs
      simp only [fieldTexts, need_cons, need_append, needNamed]
      omega
    · cases h

end

/-- A text has at least as many marks as its value asks for. -/
theorem need_le_of_parse? {s : String} {v : Json} (h : parse? s = some v) :
    need (texts v) ≤ marks s.toList := by
  obtain ⟨d, hd, hv⟩ := Option.bind_eq_some_iff.1 h
  exact Nat.le_trans (need_le_of_ofDocument? d hv) (need_le_of_documentParse? hd)

end CommandShell.Json
