import CommandShell.Json.Reading
import CommandShell.Proofs.Json.Numbers
/-!
# What is written is a document

The text of a value is a document of the JSON grammar, whatever the value holds: the scanner cuts
it into the lexemes of that document, and the builder puts them together again.

    d.lexemes        the lexemes of a document
    documentOf v     the document that the text of v is
    lexemes are put together to their document                      (readAll_lexemes)
    the text of v is cut into the lexemes of documentOf v           (scans_compactText)
    Document.parse? (compactText v) = some (documentOf v)    (documentParse?_compactText)
-/

namespace CommandShell.Json

open CommandShell.Text

/-! ## Documents and lexemes -/

mutual

/-- The lexemes of a document. -/
def Document.lexemes : Document → List Lexeme
  | .null => [.null]
  | .bool b => [.bool b]
  | .numeral n => [.numeral n]
  | .string pieces => [.string pieces]
  | .array [] => [.arrayOpen, .arrayClose]
  | .array (d :: rest) => .arrayOpen :: d.lexemes ++ itemLexemes rest ++ [.arrayClose]
  | .object [] => [.objectOpen, .objectClose]
  | .object ((name, d) :: rest) =>
    .objectOpen :: .string name :: .colon :: d.lexemes ++ fieldLexemes rest ++ [.objectClose]

/-- Those of further items, each behind a comma. -/
def itemLexemes : List Document → List Lexeme
  | [] => []
  | d :: rest => .comma :: d.lexemes ++ itemLexemes rest

/-- Those of further fields, each behind a comma. -/
def fieldLexemes : List (List Piece × Document) → List Lexeme
  | [] => []
  | (name, d) :: rest => .comma :: .string name :: .colon :: d.lexemes ++ fieldLexemes rest

end

/-- The document of a number; what is no number is written as null. -/
def numeralOf (s : List Char) : Document := ((Numeral.read? s).map Document.numeral).getD .null

/-- What stands for a character in a written string. -/
def pieceOf (c : Char) : Piece :=
  match escape c with
  | '\\' :: 'u' :: _ => .unit c.toNat
  | _ => .plain c

mutual

/-- The document that the text of a value is. -/
def documentOf : Json → Document
  | null => .null
  | bool b => .bool b
  | integer n => numeralOf (integerText n)
  | float x => numeralOf (floatText x)
  | string s => .string (s.toList.map pieceOf)
  | array items => .array (documentsOf items)
  | fields named => .object (namedOf named)

def documentsOf : List Json → List Document
  | [] => []
  | v :: vs => documentOf v :: documentsOf vs

def namedOf : List (String × Json) → List (List Piece × Document)
  | [] => []
  | (k, v) :: rest => (k.toList.map pieceOf, documentOf v) :: namedOf rest

end

/-! ## Characters of a string -/

/-- How a character is escaped: a mark by itself, a control character by letters and digits. -/
theorem escape_cases (c : Char) :
    ((c = '"' ∨ c = '\\') ∧ escape c = ['\\', c]) ∨
    (c.toNat < 32 ∧ ∃ d rest, escape c = '\\' :: d :: rest ∧
      ∀ e ∈ d :: rest, 48 ≤ e.toNat ∧ e ≠ '\\') ∨
    (32 ≤ c.toNat ∧ c ≠ '"' ∧ c ≠ '\\' ∧ escape c = [c]) := by
  have hhex : ∀ n < 16, 48 ≤ (hexDigit n).toNat ∧ hexDigit n ≠ '\\' := by decide
  have hone {d : Char} (hd : 48 ≤ d.toNat ∧ d ≠ '\\') : ∀ e ∈ [d], 48 ≤ e.toNat ∧ e ≠ '\\' :=
    List.forall_mem_singleton.2 hd
  unfold escape
  split
  · next h => exact Or.inl ⟨Or.inl h, by rw [h]⟩
  · next hquote =>
    split
    · next h => exact Or.inl ⟨Or.inr h, by rw [h]⟩
    · next hslash =>
      refine Or.inr ?_
      split
      · next h => exact Or.inl ⟨by rw [h]; decide, 'b', [], rfl, hone (by decide)⟩
      split
      · next h => exact Or.inl ⟨by rw [h]; decide, 'f', [], rfl, hone (by decide)⟩
      split
      · next h => exact Or.inl ⟨by rw [h]; decide, 'n', [], rfl, hone (by decide)⟩
      split
      · next h => exact Or.inl ⟨by rw [h]; decide, 'r', [], rfl, hone (by decide)⟩
      split
      · next h => exact Or.inl ⟨by rw [h]; decide, 't', [], rfl, hone (by decide)⟩
      split
      · next h =>
        refine Or.inl ⟨h, 'u', _, rfl, ?_⟩
        have hhigh := hhex (c.toNat / 16) (by omega)
        have hlow := hhex (c.toNat % 16) (by omega)
        simp [hhigh, hlow]
      · next h => exact Or.inr ⟨Nat.le_of_not_lt h, hquote, hslash, rfl⟩

/-- Only a control character may be written as a code unit. -/
theorem pieceOf_cases (c : Char) :
    pieceOf c = .plain c ∨ (c.toNat < 32 ∧ pieceOf c = .unit c.toNat) := by
  unfold pieceOf
  split
  · next heq =>
    rcases escape_cases c with ⟨hc, hescape⟩ | ⟨hc, -⟩ | ⟨-, -, -, hescape⟩
    · rw [hescape, List.cons.injEq, List.cons.injEq] at heq
      obtain ⟨-, rfl, -⟩ := heq
      exact absurd hc (by decide)
    · exact Or.inr ⟨hc, rfl⟩
    · rw [hescape] at heq
      cases heq
  · exact Or.inl rfl

/-! ## The builder -/

theorem readAll_cons {b next : Build} {l : Lexeme} (h : b.read l = some next) (ls : List Lexeme) :
    b.readAll (l :: ls) = next.readAll ls := by
  rw [Build.readAll, h, Option.bind_some]

/-- In an array that was just opened a value may begin, as elsewhere. -/
theorem readAll_firstItem : (d : Document) → (frames : List Frame) → (more : List Lexeme) →
    Build.readAll ⟨frames, .firstItem⟩ (d.lexemes ++ more) =
      Build.readAll ⟨frames, .value⟩ (d.lexemes ++ more)
  | .null, _, _ | .bool _, _, _ | .numeral _, _, _ | .string _, _, _ => rfl
  | .array [], _, _ | .array (_ :: _), _, _ | .object [], _, _ | .object (_ :: _), _, _ => rfl

mutual

/-- **The lexemes of a document are put together to it.** -/
theorem readAll_lexemes : (d : Document) → (frames : List Frame) → (more : List Lexeme) →
    Build.readAll ⟨frames, .value⟩ (d.lexemes ++ more) = (Build.deliver d frames).readAll more
  | .null, _, _ => rfl
  | .bool _, _, _ => rfl
  | .numeral _, _, _ => rfl
  | .string _, _, _ => rfl
  | .array [], _, _ => rfl
  | .array (d :: rest), frames, more => by
    have hopen : Build.read ⟨frames, .value⟩ .arrayOpen =
        some ⟨.array [] :: frames, .firstItem⟩ := rfl
    rw [Document.lexemes]
    simp only [List.cons_append, List.append_assoc, List.nil_append]
    rw [readAll_cons hopen, readAll_firstItem, readAll_lexemes d]
    exact readAll_items rest [d] frames more
  | .object [], _, _ => rfl
  | .object ((name, d) :: rest), frames, more => by
    have hopen : Build.read ⟨frames, .value⟩ .objectOpen = some ⟨frames, .firstName []⟩ := rfl
    have hname : Build.read ⟨frames, .firstName []⟩ (.string name) =
        some ⟨frames, .colon [] name⟩ := rfl
    have hcolon : Build.read ⟨frames, .colon [] name⟩ .colon =
        some ⟨.object [] name :: frames, .value⟩ := rfl
    rw [Document.lexemes]
    simp only [List.cons_append, List.append_assoc, List.nil_append]
    rw [readAll_cons hopen, readAll_cons hname, readAll_cons hcolon, readAll_lexemes d]
    exact readAll_fields rest [(name, d)] name frames more

/-- Further items go behind those that are there. -/
theorem readAll_items : (ds items : List Document) → (frames : List Frame) →
    (more : List Lexeme) →
    Build.readAll ⟨.array items :: frames, .separator⟩ (itemLexemes ds ++ .arrayClose :: more) =
      (Build.deliver (.array (items.reverse ++ ds)) frames).readAll more
  | [], items, frames, more => by
    rw [List.append_nil]
    rfl
  | d :: rest, items, frames, more => by
    have hcomma : Build.read ⟨.array items :: frames, .separator⟩ .comma =
        some ⟨.array items :: frames, .value⟩ := rfl
    rw [itemLexemes]
    simp only [List.cons_append, List.append_assoc]
    rw [readAll_cons hcomma, readAll_lexemes d]
    have hrest := readAll_items rest (d :: items) frames more
    rwa [List.reverse_cons, List.append_assoc] at hrest

/-- Further fields too. -/
theorem readAll_fields : (ds named : List (List Piece × Document)) → (last : List Piece) →
    (frames : List Frame) → (more : List Lexeme) →
    Build.readAll ⟨.object named last :: frames, .separator⟩
        (fieldLexemes ds ++ .objectClose :: more) =
      (Build.deliver (.object (named.reverse ++ ds)) frames).readAll more
  | [], named, last, frames, more => by
    rw [List.append_nil]
    rfl
  | (name, d) :: rest, named, last, frames, more => by
    have hcomma : Build.read ⟨.object named last :: frames, .separator⟩ .comma =
        some ⟨frames, .name named⟩ := rfl
    have hname : Build.read ⟨frames, .name named⟩ (.string name) =
        some ⟨frames, .colon named name⟩ := rfl
    have hcolon : Build.read ⟨frames, .colon named name⟩ .colon =
        some ⟨.object named name :: frames, .value⟩ := rfl
    rw [fieldLexemes]
    simp only [List.cons_append, List.append_assoc]
    rw [readAll_cons hcomma, readAll_cons hname, readAll_cons hcolon, readAll_lexemes d]
    have hrest := readAll_fields rest ((name, d) :: named) name frames more
    rwa [List.reverse_cons, List.append_assoc] at hrest

end

/-! ## The scanner -/

theorem lexemesFrom_cons {scan next : Scan} {c : Char} {found : List Lexeme}
    (h : scan.read c = some (next, found)) (rest : List Char) :
    lexemesFrom scan (c :: rest) = (lexemesFrom next rest).map (found ++ ·) := by
  rw [lexemesFrom, h]

theorem lexemesFrom_silent {scan next : Scan} {c : Char} (h : scan.read c = some (next, []))
    (rest : List Char) : lexemesFrom scan (c :: rest) = lexemesFrom next rest := by
  rw [lexemesFrom_cons h]
  exact Option.map_id'

/-- What stands behind a number ends it. -/
def Ends (s : List Char) : Prop := ∀ c, s.head? = some c → isNumeralChar c = false

/-- In front of whatever ends a number the text is read as these lexemes. -/
def Scans (s : List Char) (ls : List Lexeme) : Prop :=
  ∀ rest, Ends rest →
    lexemesFrom .between (s ++ rest) = (lexemesFrom .between rest).map (ls ++ ·)

theorem ends_cons {c : Char} (h : isNumeralChar c = false) (rest : List Char) :
    Ends (c :: rest) := by
  intro d hd
  obtain rfl := Option.some.inj hd
  exact h

section

variable {s t : List Char} {ls more : List Lexeme} {c : Char} {l : Lexeme}

theorem Scans.append (hs : Scans s ls) (ht : Scans t more) (hends : ∀ rest, Ends (t ++ rest)) :
    Scans (s ++ t) (ls ++ more) := by
  intro rest hrest
  rw [List.append_assoc, hs _ (hends rest), ht rest hrest, Option.map_map]
  exact congrArg (Option.map · _) (funext fun ks => (List.append_assoc ls more ks).symm)

/-- Behind a bracket, a comma or a colon anything may stand. -/
theorem Scans.cons (h : Scan.enter c = some (.between, [l])) (ht : Scans t more) :
    Scans (c :: t) (l :: more) := by
  intro rest hrest
  have hc : Scan.read .between c = some (.between, [l]) := h
  rw [List.cons_append, lexemesFrom_cons hc, ht rest hrest, Option.map_map]
  rfl

theorem scans_nil : Scans [] [] := fun _ _ => Option.map_id'.symm

/-! ### Strings -/

/-- A control character may be written with the four digits of its code unit. -/
theorem lexemesFrom_unit (pieces : List Piece) {c : Char} (h : c.toNat < 32) (rest : List Char) :
    lexemesFrom (.string pieces)
        (['\\', 'u', '0', '0', hexDigit (c.toNat / 16), hexDigit (c.toNat % 16)] ++ rest) =
      lexemesFrom (.string (.unit c.toNat :: pieces)) rest := by
  have hhex : ∀ n < 16, hexValue? (hexDigit n) = some n := by decide
  have hopen : Scan.read (.string pieces) '\\' = some (.escape pieces, []) := rfl
  have hunit : Scan.read (.escape pieces) 'u' = some (.hex pieces 3 0, []) := rfl
  have hzero (missing : Nat) :
      Scan.read (.hex pieces (missing + 1) 0) '0' = some (.hex pieces missing 0, []) := rfl
  have hhigh : Scan.read (.hex pieces 1 0) (hexDigit (c.toNat / 16)) =
      some (.hex pieces 0 (c.toNat / 16), []) := by
    rw [Scan.read, hhex _ (by omega), Option.map_some, Nat.mul_zero, Nat.zero_add]
  have hlow : Scan.read (.hex pieces 0 (c.toNat / 16)) (hexDigit (c.toNat % 16)) =
      some (.string (.unit c.toNat :: pieces), []) := by
    rw [Scan.read, hhex _ (by omega), Option.map_some, Nat.div_add_mod]
  simp only [List.cons_append, List.nil_append]
  rw [lexemesFrom_silent hopen, lexemesFrom_silent hunit, lexemesFrom_silent (hzero 2),
    lexemesFrom_silent (hzero 1), lexemesFrom_silent hhigh, lexemesFrom_silent hlow]

/-- An escaped character is read as the piece that stands for it. -/
theorem lexemesFrom_escape (pieces : List Piece) (c : Char) (rest : List Char) :
    lexemesFrom (.string pieces) (escape c ++ rest) =
      lexemesFrom (.string (pieceOf c :: pieces)) rest := by
  have hslash (d e : Char) (hd : d ≠ 'u') (he : escapedChar? d = some e) :
      lexemesFrom (.string pieces) ('\\' :: d :: rest) =
        lexemesFrom (.string (.plain e :: pieces)) rest := by
    have hopen : Scan.read (.string pieces) '\\' = some (.escape pieces, []) := rfl
    have hread : Scan.read (.escape pieces) d = some (.string (.plain e :: pieces), []) := by
      rw [Scan.read, if_neg hd, he]
      rfl
    rw [lexemesFrom_silent hopen, lexemesFrom_silent hread]
  unfold pieceOf escape
  split
  · next h => rw [h]; exact hslash '"' '"' (by decide) rfl
  split
  · next h => rw [h]; exact hslash '\\' '\\' (by decide) rfl
  split
  · next h => rw [h]; exact hslash 'b' '\x08' (by decide) rfl
  split
  · next h => rw [h]; exact hslash 'f' '\x0c' (by decide) rfl
  split
  · next h => rw [h]; exact hslash 'n' '\n' (by decide) rfl
  split
  · next h => rw [h]; exact hslash 'r' '\r' (by decide) rfl
  split
  · next h => rw [h]; exact hslash 't' '\t' (by decide) rfl
  split
  · next h =>
    exact lexemesFrom_unit pieces h rest
  · next hquote hslash' _ _ _ _ _ h =>
    have hread : Scan.read (.string pieces) c = some (.string (.plain c :: pieces), []) := by
      rw [Scan.read, if_neg hquote, if_neg hslash', if_neg h]
    split
    · next heq => cases heq
    · exact lexemesFrom_silent hread rest

theorem lexemesFrom_escapes (pieces : List Piece) (s rest : List Char) :
    lexemesFrom (.string pieces) (s.flatMap escape ++ rest) =
      lexemesFrom (.string ((s.map pieceOf).reverse ++ pieces)) rest := by
  induction s generalizing pieces with
  | nil => rfl
  | cons c s ih =>
    rw [List.flatMap_cons, List.append_assoc, lexemesFrom_escape, ih, List.map_cons,
      List.reverse_cons, List.append_assoc]
    rfl

/-- Behind a string anything may stand. -/
theorem Scans.quoted (k : String) (ht : Scans t more) :
    Scans (quoted k ++ t) (.string (k.toList.map pieceOf) :: more) := by
  intro rest hrest
  have hopen : Scan.read .between '"' = some (.string [], []) := rfl
  have hclose (pieces : List Piece) : Scan.read (.string pieces) '"' =
      some (.between, [.string pieces.reverse]) := rfl
  rw [Json.quoted]
  simp only [List.cons_append, List.append_assoc]
  rw [lexemesFrom_silent hopen, lexemesFrom_escapes, List.append_nil, List.nil_append,
    lexemesFrom_cons (hclose _), List.reverse_reverse, ht rest hrest, Option.map_map]
  rfl

/-! ### Numbers -/

theorem lexemesFrom_numeral {chars : List Char} (h : ∀ c ∈ s, isNumeralChar c = true)
    (rest : List Char) :
    lexemesFrom (.numeral chars) (s ++ rest) =
      lexemesFrom (.numeral (s.reverse ++ chars)) rest := by
  induction s generalizing chars with
  | nil => rfl
  | cons c s ih =>
    obtain ⟨hc, hs⟩ := List.forall_mem_cons.1 h
    have hread : Scan.read (.numeral chars) c = some (.numeral (c :: chars), []) := by
      rw [Scan.read, if_pos hc]
    rw [List.cons_append, lexemesFrom_silent hread, ih hs, List.reverse_cons, List.append_assoc]
    rfl

/-- A number is at its end where nothing of it follows. -/
theorem lexemesFrom_end {chars rest : List Char} {n : Numeral}
    (h : Numeral.read? chars.reverse = some n) (hrest : Ends rest) :
    lexemesFrom (.numeral chars) rest = (lexemesFrom .between rest).map (.numeral n :: ·) := by
  cases rest with
  | nil =>
    have hlast : lexemesFrom (.numeral chars) [] =
        (Numeral.read? chars.reverse).map fun n => [.numeral n] := rfl
    rw [hlast, h]
    rfl
  | cons c rest =>
    have hc : ¬ isNumeralChar c = true := Bool.eq_false_iff.1 (hrest c rfl)
    have hread : Scan.read (.numeral chars) c =
        (Scan.enter c).map fun e => (e.1, .numeral n :: e.2) := by
      rw [Scan.read, if_neg hc, h]
      cases Scan.enter c <;> rfl
    rw [lexemesFrom, hread, lexemesFrom]
    have henter : Scan.read .between c = Scan.enter c := rfl
    rw [henter]
    cases Scan.enter c with
    | none => rfl
    | some entered =>
      rw [Option.map_some]
      dsimp only
      rw [Option.map_map]
      rfl

/-- A number of JSON begins with a digit or a minus sign. -/
theorem first_of_read? {n : Numeral} (h : Numeral.read? s = some n) :
    ∃ c rest, s = c :: rest ∧ (c.isDigit = true ∨ c = '-') := by
  cases s with
  | nil => cases h
  | cons c rest =>
    refine ⟨c, rest, rfl, ?_⟩
    by_cases hminus : c = '-'
    · exact Or.inr hminus
    · cases hdigit : c.isDigit with
      | true => exact Or.inl rfl
      | false =>
        have hcut : (c :: rest).span Char.isDigit = ([], c :: rest) :=
          span_append (a := []) (by simp) fun d hd => by
            obtain rfl := Option.some.inj hd
            exact hdigit
        rw [Numeral.read?.eq_2 _ fun _ heq => hminus (List.cons.inj heq).1,
          Numeral.readUnsigned?, hcut] at h
        cases h

theorem enter_numeral (h : c.isDigit = true ∨ c = '-') :
    Scan.enter c = some (.numeral [c], []) := by
  have hblank : ¬ isJsonBlank c = true := by
    intro hblank
    simp only [isJsonBlank, Bool.or_eq_true, decide_eq_true_eq] at hblank
    rcases hblank with ((rfl | rfl) | rfl) | rfl <;> exact absurd h (by decide)
  have hquote : c ≠ '"' := by
    rintro rfl
    exact absurd h (by decide)
  have hbegin : (c.isDigit || c = '-') = true := by simpa using h
  unfold Scan.enter
  rw [if_neg hblank, if_neg hquote, if_pos hbegin]

theorem scans_numeral {n : Numeral} (hchars : ∀ c ∈ s, isNumeralChar c = true)
    (h : Numeral.read? s = some n) : Scans s [.numeral n] := by
  intro rest hrest
  obtain ⟨c, others, rfl, hc⟩ := first_of_read? h
  have henter : Scan.read .between c = some (.numeral [c], []) := enter_numeral hc
  have hreverse : (others.reverse ++ [c]).reverse = c :: others := by simp
  rw [List.cons_append, lexemesFrom_silent henter,
    lexemesFrom_numeral (List.forall_mem_cons.1 hchars).2,
    lexemesFrom_end (by rw [hreverse]; exact h) hrest]
  rfl

end

/-! ### Values -/

theorem scans_numeralOf {s : List Char} (h : Numeric s ∧ (Numeral.read? s).isSome) :
    Scans s (numeralOf s).lexemes := by
  obtain ⟨n, hn⟩ := Option.isSome_iff_exists.1 h.2
  have hof : numeralOf s = .numeral n := by rw [numeralOf, hn]; rfl
  rw [hof]
  exact scans_numeral h.1.chars hn

theorem lexemesFrom_word {missing : List Char} (hne : missing ≠ []) (l : Lexeme)
    (rest : List Char) :
    lexemesFrom (.word missing l) (missing ++ rest) =
      (lexemesFrom .between rest).map (l :: ·) := by
  induction missing with
  | nil => exact absurd rfl hne
  | cons c missing ih =>
    cases missing with
    | nil =>
      have hlast : Scan.read (.word [c] l) c = some (.between, [l]) := by rw [Scan.read, if_pos rfl]
      exact lexemesFrom_cons hlast rest
    | cons d missing =>
      have hnext : Scan.read (.word (c :: d :: missing) l) c =
          some (.word (d :: missing) l, []) := by
        rw [Scan.read, if_pos rfl]
        simp
      rw [List.cons_append, lexemesFrom_silent hnext, ih (List.cons_ne_nil d missing)]

theorem scans_word {c : Char} {missing : List Char} {l : Lexeme}
    (h : Scan.enter c = some (.word missing l, [])) (hne : missing ≠ []) :
    Scans (c :: missing) [l] := by
  intro rest _
  have hc : Scan.read .between c = some (.word missing l, []) := h
  rw [List.cons_append, lexemesFrom_silent hc, lexemesFrom_word hne]
  rfl

theorem scans_null : Scans ['n', 'u', 'l', 'l'] [.null] := scans_word rfl (by simp)

mutual

theorem scans_compactText : (v : Json) → Scans (compactText v) (documentOf v).lexemes
  | null => scans_null
  | bool true => scans_word rfl (by simp)
  | bool false => scans_word rfl (by simp)
  | integer n => scans_numeralOf (numeric_integerText n)
  | float x => by
    cases hx : x.isFinite with
    | true => exact scans_numeralOf (numeric_floatText hx)
    | false =>
      have hnull : floatText x = ['n', 'u', 'l', 'l'] := by simp [floatText, hx]
      show Scans (floatText x) (numeralOf (floatText x)).lexemes
      rw [hnull]
      exact scans_null
  | string s => by
    have h := scans_nil.quoted s
    rwa [List.append_nil] at h
  | array [] => (scans_nil.cons rfl).cons rfl
  | array (a :: as) => by
    obtain ⟨hitems, hends⟩ :=
      scans_compactItems as (scans_nil.cons (c := ']') rfl) (ends_cons (by decide))
    have h := Scans.cons (c := '[') rfl ((scans_compactText a).append hitems hends)
    simpa [compactText, documentOf, documentsOf, Document.lexemes] using h
  | fields [] => (scans_nil.cons rfl).cons rfl
  | fields ((k, v) :: rest) => by
    obtain ⟨hfields, hends⟩ :=
      scans_compactFields rest (scans_nil.cons (c := '}') rfl) (ends_cons (by decide))
    have hvalue := Scans.cons (c := ':') rfl ((scans_compactText v).append hfields hends)
    have h := Scans.cons (c := '{') rfl (hvalue.quoted k)
    simpa [compactText, documentOf, namedOf, Document.lexemes] using h

/-- Further items are read up to what closes their array. -/
theorem scans_compactItems : (vs : List Json) → {close : List Char} → {ls : List Lexeme} →
    Scans close ls → (∀ rest, Ends (close ++ rest)) →
    Scans (compactItems vs ++ close) (itemLexemes (documentsOf vs) ++ ls) ∧
      ∀ rest, Ends (compactItems vs ++ close ++ rest)
  | [], _, _, hclose, hends => ⟨hclose, hends⟩
  | a :: as, _, _, hclose, hends => by
    obtain ⟨hitems, hmore⟩ := scans_compactItems as hclose hends
    have h := Scans.cons (c := ',') rfl ((scans_compactText a).append hitems hmore)
    refine ⟨?_, ends_cons (by decide)⟩
    simpa [compactItems, documentsOf, itemLexemes] using h

/-- Further fields too. -/
theorem scans_compactFields : (named : List (String × Json)) → {close : List Char} →
    {ls : List Lexeme} → Scans close ls → (∀ rest, Ends (close ++ rest)) →
    Scans (compactFields named ++ close) (fieldLexemes (namedOf named) ++ ls) ∧
      ∀ rest, Ends (compactFields named ++ close ++ rest)
  | [], _, _, hclose, hends => ⟨hclose, hends⟩
  | (k, v) :: rest, _, _, hclose, hends => by
    obtain ⟨hfields, hmore⟩ := scans_compactFields rest hclose hends
    have hvalue := Scans.cons (c := ':') rfl ((scans_compactText v).append hfields hmore)
    have h := Scans.cons (c := ',') rfl (hvalue.quoted k)
    refine ⟨?_, fun _ => ends_cons (by decide) _⟩
    simpa [compactFields, namedOf, fieldLexemes] using h

end

/-- A text that is cut into the lexemes of a document is that document. -/
theorem documentParse?_of_scans {s : List Char} {d : Document} (h : Scans s d.lexemes) :
    Document.parse? s = some d := by
  have hscan := h [] (fun c hc => by cases hc)
  have hbuild := readAll_lexemes d [] []
  rw [List.append_nil] at hscan hbuild
  have hlexemes : lexemesFrom .between s = some d.lexemes := by
    rw [hscan]
    simp [lexemesFrom]
  rw [Document.parse?, hlexemes, Option.bind_some, hbuild]
  rfl

/-- **What is written is a document.** -/
theorem documentParse?_compactText (v : Json) :
    Document.parse? (compactText v) = some (documentOf v) :=
  documentParse?_of_scans (scans_compactText v)

end CommandShell.Json
