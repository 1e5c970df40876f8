import CommandShell.Proofs.Json.Writing
/-!
# Which values are read back from their text

The text of a value is read as a value again if its containers are nested no deeper than the
reader goes.  That is the same value if whole numbers have 64 bits, the names of fields ascend,
and floats are read back from their digits, which the reader does not promise.

    Exact room v          v has no such number, no other order, and no deeper nesting
    parse? v.compact = some v ↔ Exact maxDepth v                     (parse?_compact_iff)
-/

namespace CommandShell.Json

open CommandShell.Text

mutual

/-- The value loses nothing in a JSON text, where containers may be nested `room` deep. -/
def Exact (room : Nat) : Json → Prop
  | null => True
  | bool _ => True
  | integer n => -(Nat.pow 2 63 : Int) ≤ n ∧ n < Nat.pow 2 64
  | float x => ∃ n, Numeral.read? (floatText x) = some n ∧ n.value? = some (float x)
  | string _ => True
  | array items => 0 < room ∧ ExactItems (room - 1) items
  | fields named =>
    0 < room ∧ (Assoc.keys named).Pairwise (· < ·) ∧ ExactFields (room - 1) named

def ExactItems (room : Nat) : List Json → Prop
  | [] => True
  | v :: vs => Exact room v ∧ ExactItems room vs

def ExactFields (room : Nat) : List (String × Json) → Prop
  | [] => True
  | (_, v) :: rest => Exact room v ∧ ExactFields room rest

end

/-! ## Strings -/

/-- A code unit outside the surrogates is a character by itself. -/
theorem pieceText?_unit {n : Nat} (h : n < 0xD800) (rest : List Piece) :
    pieceText? (.unit n :: rest) = (pieceText? rest).map (Char.ofNat n :: ·) := by
  have hhigh : ¬ (0xD800 ≤ n ∧ n < 0xDC00) := by omega
  have hlow : ¬ (0xDC00 ≤ n ∧ n < 0xE000) := by omega
  have hnone : ¬ (0xD800 ≤ n ∧ n < 0xE000) := by omega
  cases rest with
  | nil => rw [pieceText?.eq_4 _ _ (by simp), if_neg hnone]
  | cons p rest =>
    cases p with
    | plain c => rw [pieceText?.eq_4 _ _ (by simp), if_neg hnone]
    | unit low => rw [pieceText?, if_neg hhigh, if_neg hlow]

theorem pieceText?_pieces (s : List Char) : pieceText? (s.map pieceOf) = some s := by
  induction s with
  | nil => rfl
  | cons c s ih =>
    rw [List.map_cons]
    rcases pieceOf_cases c with hpiece | ⟨hc, hpiece⟩
    · rw [hpiece, pieceText?, ih]
      rfl
    · rw [hpiece, pieceText?_unit (by omega), ih, Option.map_some, Char.ofNat_toNat]

theorem stringOf?_pieces (s : String) : stringOf? (s.toList.map pieceOf) = some s := by
  rw [stringOf?, pieceText?_pieces, Option.map_some, String.ofList_toList]

/-! ## Numbers -/

theorem digitsValue_natDigits (n : Nat) : digitsValue (natDigits n) = n :=
  Nat.ofDigitChars_ten_toDigits

theorem read?_integerText (n : Int) :
    Numeral.read? (integerText n) = some ⟨decide (n < 0), natDigits n.natAbs, [], none⟩ := by
  have hread (negative : Bool) : Numeral.readUnsigned? negative (natDigits n.natAbs) =
      some ⟨negative, natDigits n.natAbs, [], none⟩ := by
    have h := (whole_natDigits n.natAbs).readUnsigned? (s := []) (by simp) negative
    rw [List.append_nil] at h
    rw [h]
    rfl
  unfold integerText intText
  split
  · next hneg =>
    rw [String.toList_ofList, Numeral.read?, hread, decide_eq_true hneg]
  · next hneg =>
    rw [String.toList_ofList, decide_eq_false hneg, ← hread]
    refine Numeral.read?.eq_2 _ fun rest heq => ?_
    have hdigit := (whole_natDigits n.natAbs).digits '-' (by rw [heq]; exact List.mem_cons_self)
    exact absurd hdigit (by decide)

theorem value?_integer_iff (n : Int) :
    Numeral.value? ⟨decide (n < 0), natDigits n.natAbs, [], none⟩ = some (integer n) ↔
      -(Nat.pow 2 63 : Int) ≤ n ∧ n < Nat.pow 2 64 := by
  have hlow : Nat.pow 2 63 = 9223372036854775808 := rfl
  have hhigh : Nat.pow 2 64 = 18446744073709551616 := rfl
  have hno (x : Option Float) : x.map float ≠ some (integer n) := by
    cases x <;> simp
  unfold Numeral.value?
  simp only [digitsValue_natDigits, List.isEmpty_nil, Option.isNone_none, Bool.and_self, if_true,
    hlow, hhigh]
  by_cases hneg : n < 0
  · rw [decide_eq_true hneg, if_pos rfl]
    split
    · exact iff_of_true (by rw [Option.some.injEq, integer.injEq]; omega) (by omega)
    · exact iff_of_false (hno _) (by omega)
  · rw [decide_eq_false hneg, if_neg Bool.false_ne_true]
    split
    · exact iff_of_true (by rw [Option.some.injEq, integer.injEq]; omega) (by omega)
    · exact iff_of_false (hno _) (by omega)

theorem ofDocument?_numeralOf (room : Nat) (s : List Char) :
    ofDocument? room (numeralOf s) = ((Numeral.read? s).map Numeral.value?).getD (some null) := by
  unfold numeralOf
  cases Numeral.read? s <;> rfl

/-! ## Values -/

/-- Fields keep their names. -/
theorem keys_of_fieldsOf? {room : Nat} {named found : List (String × Json)}
    (h : fieldsOf? room (namedOf named) = some found) : Assoc.keys found = Assoc.keys named := by
  induction named generalizing found with
  | nil =>
    cases h
    rfl
  | cons p named ih =>
    obtain ⟨k, v⟩ := p
    rw [namedOf, fieldsOf?, stringOf?_pieces] at h
    split at h
    · next j u us hj hu hus =>
      cases h
      cases hj
      exact congrArg (List.cons k) (ih hus)
    · cases h

mutual

theorem ofDocument?_iff (room : Nat) : (v : Json) →
    (ofDocument? room (documentOf v) = some v ↔ Exact room v)
  | null => iff_of_true rfl trivial
  | bool b => iff_of_true rfl trivial
  | integer n => by
    show ofDocument? room (numeralOf (integerText n)) = _ ↔ _
    rw [ofDocument?_numeralOf, read?_integerText]
    exact value?_integer_iff n
  | float x => by
    show ofDocument? room (numeralOf (floatText x)) = _ ↔ ∃ n, _ ∧ _
    rw [ofDocument?_numeralOf]
    cases Numeral.read? (floatText x) with
    | none => exact iff_of_false (by simp) (by simp)
    | some n => simp
  | string s => by
    refine iff_of_true ?_ trivial
    rw [documentOf, ofDocument?, stringOf?_pieces]
    rfl
  | array items => by
    rw [documentOf, ofDocument?, Exact, ← itemsOf?_iff (room - 1) items]
    by_cases hroom : room = 0
    · simp [hroom]
    · rw [if_neg hroom]
      simp [Nat.pos_of_ne_zero hroom]
  | fields named => by
    rw [documentOf, ofDocument?, Exact, ← fieldsOf?_iff (room - 1) named]
    by_cases hroom : room = 0
    · simp [hroom]
    · rw [if_neg hroom, Option.map_eq_some_iff]
      constructor
      · rintro ⟨found, hfound, hobject⟩
        have hsorted : Assoc.sorted found = named := fields.inj hobject
        have hascend := Assoc.pairwise_keys_sorted found
        rw [hsorted] at hascend
        have hkeys := keys_of_fieldsOf? hfound
        rw [Assoc.sorted_eq_self (by rw [hkeys]; exact hascend)] at hsorted
        rw [hsorted] at hfound
        exact ⟨Nat.pos_of_ne_zero hroom, hascend, hfound⟩
      · rintro ⟨-, hascend, hfound⟩
        exact ⟨named, hfound, by rw [object, Assoc.sorted_eq_self hascend]⟩

theorem itemsOf?_iff (room : Nat) : (vs : List Json) →
    (itemsOf? room (documentsOf vs) = some vs ↔ ExactItems room vs)
  | [] => iff_of_true rfl trivial
  | v :: vs => by
    rw [documentsOf, itemsOf?, ExactItems, ← ofDocument?_iff room v, ← itemsOf?_iff room vs]
    split
    · next u us hu hus => simp [hu, hus]
    · next hnone =>
      refine iff_of_false (by simp) fun h => hnone _ _ h.1 h.2

theorem fieldsOf?_iff (room : Nat) : (named : List (String × Json)) →
    (fieldsOf? room (namedOf named) = some named ↔ ExactFields room named)
  | [] => iff_of_true rfl trivial
  | (k, v) :: rest => by
    rw [namedOf, fieldsOf?, ExactFields, ← ofDocument?_iff room v, ← fieldsOf?_iff room rest,
      stringOf?_pieces]
    split
    · next j u us hj hu hus =>
      cases hj
      simp [hu, hus]
    · next hnone =>
      refine iff_of_false (by simp) fun h => hnone _ _ _ rfl h.1 h.2

end

/-- **A value is read back from its text if it is exact, and only then.** -/
theorem parse?_compact_iff (v : Json) : parse? v.compact = some v ↔ Exact maxDepth v := by
  rw [parse?, compact, String.toList_ofList, documentParse?_compactText, Option.bind_some]
  exact ofDocument?_iff maxDepth v

end CommandShell.Json
