import CommandShell.Parse.Spans
import CommandShell.Proofs.Line.Words
import CommandShell.Proofs.Literal.Nesting
/-!
# A line from span to span

The strategy with spans walks a line from one bracketed span to the next and looks at the text in
between.  A `Stretch` is a span with the text before it, and a line is its stretches and a tail.
The word right before the span, if it is a flag, may name the parameter that the span is for.

    the stretches of a line and its tail, joined, are the line         (stretches_join)
    before a span nothing is quoted                                    (bare_before)
    the text before a span without its last word has all words but that one
                                                                       (rawWords_front)
    the flag before a span is found unless its word ends in a blank    (trailingFlag?_before)
-/

namespace CommandShell

open CommandShell.Text CommandShell.Line CommandShell.Literal

theorem takeBytes_append (a b : List Char) : takeBytes (byteLength a) (a ++ b) = a := by
  induction a with
  | nil => cases b <;> rfl
  | cons c a ih =>
    have hne : c.utf8Size + byteLength a ≠ 0 := by have := c.utf8Size_pos; omega
    rw [byteLength, List.cons_append, takeBytes, if_neg hne, Nat.add_sub_cancel_left, ih]

theorem dropBytes_append (a b : List Char) : dropBytes (byteLength a) (a ++ b) = b := by
  induction a with
  | nil => cases b <;> rfl
  | cons c a ih =>
    have hne : c.utf8Size + byteLength a ≠ 0 := by have := c.utf8Size_pos; omega
    rw [byteLength, List.cons_append, dropBytes, if_neg hne, Nat.add_sub_cancel_left, ih]

/-- A span and the text between it and the span before. -/
structure Stretch where
  before : List Char
  bracket : Bracket
  inner : List Char

namespace Stretch

def text (st : Stretch) : List Char := st.before ++ enclosed st.bracket st.inner

def literal (st : Stretch) : Collection := .ofInner st.bracket st.inner

/-- The word right before the span as it stands in the line, if it is a flag. -/
def flag? (st : Stretch) : Option (List Char) :=
  ((tokenize st.before).getLast?.map (·.text)).filter fun word => looksLikeFlag (unquote word)

/-- The name that a flag gives, without an equals sign at its end. -/
def nameIn (word : List Char) : String :=
  let name := flagName (unquote word)
  String.ofList (if name.getLast? = some '=' then name.dropLast else name)

/-- The position of the collection parameter that a flag names. -/
def namedBy? (ps : List Parameter) (word : List Char) : Option Nat :=
  (Parameter.position? ps (nameIn word)).filter fun i => ps[i]?.any fun p => p.type.isCollection

/-- The position of the collection parameter that the flag before the span names. -/
def names? (ps : List Parameter) (st : Stretch) : Option Nat := st.flag?.bind (namedBy? ps)

/-- Whether the flag before the span ends in a blank, which a backslash takes literally. -/
def endsInBlank (st : Stretch) : Bool := st.flag?.any fun word => word.getLast?.any isBlank

/-- The text before the last word before the span. -/
def front (st : Stretch) : List Char :=
  match (tokenize st.before).getLast? with
  | none => st.before
  | some t => takeBytes t.start st.before

end Stretch

/-- The stretches of a line from the byte `cursor` on, and what stands behind the last of them. -/
def stretchesFrom (cursor : Nat) (rest : List Char) : List Span → List Stretch × List Char
  | [] => ([], rest)
  | span :: spans =>
    let more := stretchesFrom span.stop (dropBytes (span.stop - cursor) rest) spans
    (⟨takeBytes (span.start - cursor) rest, span.bracket, span.inner⟩ :: more.1, more.2)

/-- The stretches of a line, and its tail. -/
def stretches (raw : List Char) : List Stretch × List Char := stretchesFrom 0 raw (spans raw)

/-! ## Stretches and the line -/

theorem stretchesFrom_flat (pos : Nat) {s : List Char} (h : Flat .start s) :
    stretchesFrom pos s (spansFrom .start pos ⟨0, none⟩ s) = ([], s) := by
  have hspans := spansFrom_flat h pos ⟨0, none⟩ []
  rw [List.append_nil] at hspans
  rw [hspans]
  rfl

/-- What the first span of a line adds. -/
theorem stretchesFrom_cons (pos : Nat) (st : Stretch) (rest : List Char) (spans : List Span) :
    let more := stretchesFrom (pos + byteLength st.text) rest spans
    stretchesFrom pos (st.text ++ rest)
        (⟨st.bracket, pos + byteLength st.before, pos + byteLength st.text, st.inner⟩ :: spans) =
      (st :: more.1, more.2) := by
  have hbefore : takeBytes (byteLength st.before) (st.text ++ rest) = st.before := by
    rw [Stretch.text, List.append_assoc, takeBytes_append]
  rw [stretchesFrom]
  dsimp only
  rw [Nat.add_sub_cancel_left, Nat.add_sub_cancel_left, dropBytes_append, hbefore]

theorem stretchesFrom_paired (st : Stretch) (hbefore : Gap st.before) (hinner : Paired st.inner)
    (pos : Nat) (rest : List Char) :
    let more := stretchesFrom (pos + byteLength st.text) rest
      (spansFrom .start (pos + byteLength st.text) ⟨0, none⟩ rest)
    stretchesFrom pos (st.text ++ rest) (spansFrom .start pos ⟨0, none⟩ (st.text ++ rest)) =
      (st :: more.1, more.2) := by
  have hfirst := spansFrom_paired hbefore hinner st.bracket pos rest
  rw [show st.text ++ rest = st.before ++ enclosed st.bracket st.inner ++ rest from rfl, hfirst]
  exact stretchesFrom_cons pos st rest _

/-- The line is its own tail, or its first stretch and a line with the other stretches. -/
theorem stretchesFrom_cases (pos : Nat) (s : List Char) :
    stretchesFrom pos s (spansFrom .start pos ⟨0, none⟩ s) = ([], s) ∨
      ∃ st rest, s = Stretch.text st ++ rest ∧ Mode.start.advanceAll st.before = .start ∧
        let more := stretchesFrom (pos + byteLength st.text) rest
          (spansFrom .start (pos + byteLength st.text) ⟨0, none⟩ rest)
        stretchesFrom pos s (spansFrom .start pos ⟨0, none⟩ s) = (st :: more.1, more.2) := by
  rcases spansFrom_cases .start pos s with hnone | ⟨before, b, inner, rest, rfl, hmode, -, hfirst⟩
  · rw [hnone]
    exact Or.inl rfl
  · refine Or.inr ⟨⟨before, b, inner⟩, rest, rfl, hmode, ?_⟩
    rw [hfirst]
    exact stretchesFrom_cons pos ⟨before, b, inner⟩ rest _

theorem stretchesFrom_join (pos : Nat) (s : List Char) :
    let parts := stretchesFrom pos s (spansFrom .start pos ⟨0, none⟩ s)
    parts.1.flatMap Stretch.text ++ parts.2 = s ∧
      ∀ st ∈ parts.1, Mode.start.advanceAll st.before = .start := by
  induction hn : s.length using Nat.strongRecOn generalizing pos s with
  | ind n ih =>
    rcases stretchesFrom_cases pos s with hnone | ⟨st, rest, rfl, hmode, hfirst⟩
    · rw [hnone]
      exact ⟨rfl, fun st hst => (List.not_mem_nil hst).elim⟩
    · have hlen : rest.length < n := by
        rw [← hn]
        simp [Stretch.text, enclosed]
        omega
      obtain ⟨hjoin, hbare⟩ := ih rest.length hlen (pos + byteLength st.text) rest rfl
      rw [hfirst]
      refine ⟨?_, fun st' hst' => ?_⟩
      · rw [List.flatMap_cons, List.append_assoc, hjoin]
      · rcases List.mem_cons.1 hst' with rfl | hst'
        · exact hmode
        · exact hbare st' hst'

theorem stretches_join (raw : List Char) :
    (stretches raw).1.flatMap Stretch.text ++ (stretches raw).2 = raw :=
  (stretchesFrom_join 0 raw).1

theorem bare_before {raw : List Char} {st : Stretch} (h : st ∈ (stretches raw).1) :
    Mode.start.advanceAll st.before = .start :=
  (stretchesFrom_join 0 raw).2 st h

/-! ## The last word before a span -/

theorem front_of_last {st : Stretch} {t : Token} (h : (tokenize st.before).getLast? = some t) :
    ∃ b, st.before = st.front ++ t.text ++ b ∧ Mode.start.advanceAll st.front = .start ∧
      t.text ≠ [] ∧ (∀ c ∈ b, isBlank c = true) ∧ t.start = byteLength st.front ∧
      t.stop = byteLength (st.front ++ t.text) ∧ tokenize st.before = tokenize st.front ++ [t] := by
  obtain ⟨a, b, hbefore, hmode, hne, hblank, hstart, hstop, htokens⟩ := tokenize_last h
  have hfront : st.front = a := by
    rw [Stretch.front, h]
    dsimp only
    rw [hstart, hbefore, List.append_assoc, takeBytes_append]
  rw [hfront]
  exact ⟨b, hbefore, hmode, hne, hblank, hstart, hstop, htokens⟩

theorem rawWords_front (st : Stretch) : rawWords st.front = (rawWords st.before).dropLast := by
  cases h : (tokenize st.before).getLast? with
  | none =>
    have hnone : tokenize st.before = [] := List.getLast?_eq_none_iff.1 h
    rw [Stretch.front, h, rawWords, hnone]
    rfl
  | some t =>
    obtain ⟨b, -, -, -, -, -, -, htokens⟩ := front_of_last h
    rw [rawWords, rawWords, htokens, List.map_append, List.map_singleton, List.dropLast_concat]

theorem bare_front {st : Stretch} (h : Mode.start.advanceAll st.before = .start) :
    Mode.start.advanceAll st.front = .start := by
  cases hlast : (tokenize st.before).getLast? with
  | none => rw [Stretch.front, hlast]; exact h
  | some t =>
    obtain ⟨b, -, hmode, -⟩ := front_of_last hlast
    exact hmode

/-- Trimming shortens a text exactly if it ends in a blank. -/
theorem byteLength_trimEnd_iff (s : List Char) :
    byteLength s = byteLength (trimEnd s) ↔ s.getLast?.any isBlank = false := by
  have hsplit : trimEnd s ++ (s.reverse.takeWhile isBlank).reverse = s := by
    rw [trimEnd, ← List.reverse_append, List.takeWhile_append_dropWhile, List.reverse_reverse]
  have hlen := congrArg byteLength hsplit
  rw [byteLength_append] at hlen
  have hself : byteLength s = byteLength (trimEnd s) ↔ trimEnd s = s := by
    constructor
    · intro h
      have hnil := (byteLength_eq_zero_iff (s.reverse.takeWhile isBlank).reverse).1 (by omega)
      rwa [hnil, List.append_nil] at hsplit
    · intro h
      rw [h]
  rw [hself, trimEnd_eq_self_iff]
  cases s.getLast? <;> simp

theorem takeBytes_front (st : Stretch) {word : List Char} (h : st.flag? = some word) :
    takeBytes (byteLength st.front) st.before = st.front := by
  obtain ⟨t, hlast, -⟩ := Option.map_eq_some_iff.1 (Option.filter_eq_some_iff.1 h).1
  obtain ⟨b, hbefore, -⟩ := front_of_last hlast
  rw [hbefore, List.append_assoc, takeBytes_append]

/-- **The flag before a span is found unless its word ends in a blank.** -/
theorem trailingFlag?_before (st : Stretch) :
    trailingFlag? st.before =
      if st.endsInBlank then none
      else st.flag?.map fun word => (Stretch.nameIn word, byteLength st.front) := by
  cases h : (tokenize st.before).getLast? with
  | none => simp [trailingFlag?, Stretch.flag?, h]
  | some t =>
    obtain ⟨b, hbefore, -, hne, hblank, hstart, hstop, -⟩ := front_of_last h
    have htrim : t.stop = byteLength (trimEnd st.before) ↔ t.text.getLast?.any isBlank = false := by
      have hlast : (st.front ++ t.text).getLast? = t.text.getLast? := by
        rw [List.getLast?_append]
        cases hl : t.text.getLast? with
        | none => exact absurd (List.getLast?_eq_none_iff.1 hl) hne
        | some c => rfl
      rw [hstop, hbefore, trimEnd_append_of_blank _ hblank, byteLength_trimEnd_iff, hlast]
    have hfind : trailingFlag? st.before =
        if t.stop ≠ byteLength (trimEnd st.before) then none
        else if looksLikeFlag (unquote t.text) then
          some (Stretch.nameIn t.text, byteLength st.front)
        else none := by
      rw [trailingFlag?, h, ← hstart]
      rfl
    cases hflag : looksLikeFlag (unquote t.text) with
    | false =>
      have hnone : st.flag? = none := by simp [Stretch.flag?, h, Option.filter, hflag]
      simp [hfind, hnone, hflag]
    | true =>
      have hsome : st.flag? = some t.text := by simp [Stretch.flag?, h, hflag]
      have hends : st.endsInBlank = t.text.getLast?.any isBlank := by
        simp [Stretch.endsInBlank, hsome]
      rw [hfind, hflag, hsome, hends]
      cases hblank : t.text.getLast?.any isBlank with
      | false => rw [if_neg (not_not_intro (htrim.2 hblank))]; rfl
      | true => rw [if_pos fun hstop => by rw [htrim.1 hstop] at hblank; cases hblank]; rfl

end CommandShell
