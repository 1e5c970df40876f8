import CommandShell.Coercion.Basic
import Mathlib.Data.List.TakeDrop
import Mathlib.Data.List.TakeWhile
/-!
# What looks like a number and what is one

A word is classified as a number by its digits of any script, and read as one by its ASCII digits.
On words with no other digits the two agree, and there a word that starts with a dash is kept from
being a flag just when it is a number.

    read? s is a number ↔ s looks like one and its digits are ASCII         (read?_isSome_iff)
    readInt64? s is a number → s looks like one                      (isNumber_of_readInt64?)
    numbers and flags are told apart ↔ no foreign digit, no blank in the way
                                                              (numbers_told_apart_iff)
-/

namespace CommandShell

open CommandShell.Text CommandShell.Literal CommandShell.Decimal

variable {s a b : List Char} {c : Char}

/-! ## Digits of other scripts -/

/-- No digit of the text is from another script. -/
def PlainDigits (s : List Char) : Prop := ∀ c ∈ s, isDecimalDigit c = true → c.isDigit = true

instance : DecidablePred PlainDigits := fun s =>
  decidable_of_iff ((s.all fun c => !isDecimalDigit c || c.isDigit) = true)
    (by simp [PlainDigits, Decidable.imp_iff_not_or])

theorem plainDigits_append : PlainDigits (a ++ b) ↔ PlainDigits a ∧ PlainDigits b :=
  List.forall_mem_append

theorem plainDigits_cons_of_mark (hc : isDecimalDigit c = false) :
    PlainDigits (c :: s) ↔ PlainDigits s := by
  simp [PlainDigits, hc]

theorem plainDigits_dropSign : PlainDigits (dropSign s) ↔ PlainDigits s := by
  fun_cases dropSign s with
  | case1 s => exact (plainDigits_cons_of_mark (by decide)).symm
  | case2 s => exact (plainDigits_cons_of_mark (by decide)).symm
  | case3 => exact Iff.rfl

theorem all_isDigit_iff :
    s.all Char.isDigit = true ↔ s.all isDecimalDigit = true ∧ PlainDigits s := by
  simp only [List.all_eq_true]
  constructor
  · intro h
    exact ⟨fun c hc => isDecimalDigit_of_isDigit (h c hc), fun c hc _ => h c hc⟩
  · rintro ⟨hall, hplain⟩ c hc
    exact hplain c hc (hall c hc)

/-- Without foreign digits a text is cut behind its digits alike. -/
theorem PlainDigits.span_eq (h : PlainDigits s) : s.span isDecimalDigit = s.span Char.isDigit := by
  simp only [List.span_eq_takeWhile_dropWhile]
  induction s with
  | nil => rfl
  | cons c s ih =>
    obtain ⟨hc, hs⟩ := List.forall_mem_cons.1 h
    obtain ⟨htake, hdrop⟩ := Prod.mk.inj (ih hs)
    cases hdigit : c.isDigit with
    | true => simp [hdigit, isDecimalDigit_of_isDigit hdigit, htake, hdrop]
    | false =>
      have hforeign : isDecimalDigit c = false :=
        Bool.eq_false_iff.2 fun hd => by simp [hc hd] at hdigit
      simp [hdigit, hforeign]

/-! ## Reading -/

theorem readDigits?_isSome_iff : (readDigits? s).isSome ↔ s ≠ [] ∧ s.all Char.isDigit = true := by
  unfold readDigits?
  split <;> simp_all

theorem readInt?_isSome (s : List Char) :
    (readInt? s).isSome = (readDigits? (dropSign s)).isSome := by
  fun_cases dropSign s with
  | case1 s => simp [readInt?]
  | case2 s => simp [readInt?]
  | case3 s hplus hminus => rw [readInt?.eq_3 s hplus hminus, Option.isSome_map]

theorem readInt?_isSome_iff : (readInt? s).isSome ↔
    dropSign s ≠ [] ∧ (dropSign s).all isDecimalDigit = true ∧ PlainDigits s := by
  rw [readInt?_isSome, readDigits?_isSome_iff, all_isDigit_iff, plainDigits_dropSign]

theorem readExponent?_isSome_iff :
    (readExponent? s).isSome ↔ isExponent s = true ∧ PlainDigits s := by
  cases s with
  | nil => simp [readExponent?, isExponent, PlainDigits]
  | cons c s =>
    by_cases hc : c = 'e' ∨ c = 'E'
    · have hmark : isDecimalDigit c = false := by rcases hc with rfl | rfl <;> decide
      rw [readExponent?, if_pos hc, readInt?_isSome_iff, plainDigits_cons_of_mark hmark]
      simp [isExponent, hc, and_assoc]
    · simp [readExponent?, isExponent, hc]

theorem plainDigits_dropWhile : PlainDigits (s.dropWhile Char.isDigit) ↔ PlainDigits s := by
  have htake : PlainDigits (s.takeWhile Char.isDigit) :=
    fun c hc _ => List.all_eq_true.1 List.all_takeWhile c hc
  have hsplit := plainDigits_append (a := s.takeWhile Char.isDigit) (b := s.dropWhile Char.isDigit)
  rw [List.takeWhile_append_dropWhile] at hsplit
  exact ⟨fun h => hsplit.2 ⟨htake, h⟩, fun h => (hsplit.1 h).2⟩

/-- What is read holds ASCII digits only. -/
theorem plainDigits_of_readUnsigned? (h : (readUnsigned? s).isSome) : PlainDigits s := by
  simp only [readUnsigned?, List.span_eq_takeWhile_dropWhile] at h
  rw [← plainDigits_dropWhile]
  split at h
  · next rest hrest =>
    rw [hrest, plainDigits_cons_of_mark (by decide), ← plainDigits_dropWhile]
    split at h
    · cases h
    · rw [Option.isSome_map] at h
      exact (readExponent?_isSome_iff.1 h).2
  · split at h
    · cases h
    · rw [Option.isSome_map] at h
      exact (readExponent?_isSome_iff.1 h).2

theorem PlainDigits.readExponent?_isSome (h : PlainDigits s) :
    (readExponent? s).isSome = isExponent s := by
  rw [Bool.eq_iff_iff, readExponent?_isSome_iff, and_iff_left h]

/-- Of a text without foreign digits the same is read as is taken for a number. -/
theorem PlainDigits.readUnsigned?_isSome (h : PlainDigits s) :
    (readUnsigned? s).isSome = isUnsignedNumber s := by
  have hrest := plainDigits_dropWhile.2 h
  simp only [readUnsigned?, isUnsignedNumber, h.span_eq, List.span_eq_takeWhile_dropWhile]
  cases hcut : s.dropWhile Char.isDigit with
  | nil => cases s.takeWhile Char.isDigit <;> simp [readExponent?, isExponent]
  | cons c rest =>
    rw [hcut] at hrest
    by_cases hc : c = '.'
    · subst hc
      rw [plainDigits_cons_of_mark (by decide)] at hrest
      have hspan := hrest.span_eq
      have hexponent := (plainDigits_dropWhile.2 hrest).readExponent?_isSome
      simp only [List.span_eq_takeWhile_dropWhile, Prod.mk.injEq] at hspan
      cases s.takeWhile Char.isDigit with
      | nil => cases hfraction : rest.takeWhile Char.isDigit <;> simp [hspan, hfraction, hexponent]
      | cons d whole => simp [hspan, hexponent]
    · cases s.takeWhile Char.isDigit with
      | nil => simp [hc]
      | cons d whole => simp [hc, hrest.readExponent?_isSome]

theorem readUnsigned?_isSome_iff :
    (readUnsigned? s).isSome ↔ isUnsignedNumber s = true ∧ PlainDigits s := by
  constructor
  · intro h
    have hplain := plainDigits_of_readUnsigned? h
    exact ⟨hplain.readUnsigned?_isSome ▸ h, hplain⟩
  · rintro ⟨h, hplain⟩
    rwa [hplain.readUnsigned?_isSome]

theorem read?_isSome (s : List Char) :
    (read? s).isSome = (readUnsigned? (dropSign s)).isSome := by
  fun_cases dropSign s with
  | case1 s => rfl
  | case2 s => simp [read?]
  | case3 s hplus hminus => rw [read?.eq_3 s hplus hminus]

/-- A word is read as a number if it looks like one and its digits are ASCII. -/
theorem read?_isSome_iff : (read? s).isSome ↔ isNumber s = true ∧ PlainDigits s := by
  rw [read?_isSome, readUnsigned?_isSome_iff, plainDigits_dropSign, isNumber]

theorem isNumber_of_readInt? (h : (readInt? s).isSome) : isNumber s = true := by
  obtain ⟨hne, hall, -⟩ := readInt?_isSome_iff.1 h
  have hwhole : (dropSign s).takeWhile isDecimalDigit = dropSign s :=
    List.takeWhile_eq_self_iff.2 (List.all_eq_true.1 hall)
  have hrest : (dropSign s).dropWhile isDecimalDigit = [] :=
    List.dropWhile_eq_nil_iff.2 (List.all_eq_true.1 hall)
  simp only [isNumber, isUnsignedNumber, List.span_eq_takeWhile_dropWhile, hwhole, hrest]
  cases hs : dropSign s with
  | nil => exact absurd hs hne
  | cons c rest => rfl

theorem isNumber_of_readInt64? (h : (readInt64? s).isSome) : isNumber s = true := by
  rw [readInt64?, Option.isSome_map] at h
  exact isNumber_of_readInt? (Option.isSome_of_isSome_filter _ _ h)

/-! ## Blanks -/

theorem not_blank_of_dropSign (h : ∀ c ∈ dropSign s, isBlank c = false) :
    ∀ c ∈ s, isBlank c = false := by
  revert h
  fun_cases dropSign s with
  | case1 s => exact fun h => List.forall_mem_cons.2 ⟨by decide, h⟩
  | case2 s => exact fun h => List.forall_mem_cons.2 ⟨by decide, h⟩
  | case3 => exact id

theorem not_blank_of_dropWhile (h : ∀ c ∈ s.dropWhile isDecimalDigit, isBlank c = false) :
    ∀ c ∈ s, isBlank c = false := by
  rw [← List.takeWhile_append_dropWhile (p := isDecimalDigit) (l := s)]
  refine List.forall_mem_append.2 ⟨fun c hc => not_blank_of_isDecimalDigit ?_, h⟩
  exact List.all_eq_true.1 List.all_takeWhile c hc

theorem not_blank_of_isExponent (h : isExponent s = true) : ∀ c ∈ s, isBlank c = false := by
  cases s with
  | nil => simp
  | cons c s =>
    simp only [isExponent, Bool.and_eq_true, Bool.or_eq_true, decide_eq_true_eq] at h
    obtain ⟨⟨hmark, -⟩, hdigits⟩ := h
    refine List.forall_mem_cons.2 ⟨by rcases hmark with rfl | rfl <;> decide, ?_⟩
    exact not_blank_of_dropSign fun d hd =>
      not_blank_of_isDecimalDigit (List.all_eq_true.1 hdigits d hd)

/-- A number is written without blanks. -/
theorem not_blank_of_isNumber (h : isNumber s = true) : ∀ c ∈ s, isBlank c = false := by
  refine not_blank_of_dropSign (not_blank_of_dropWhile ?_)
  simp only [isNumber, isUnsignedNumber, List.span_eq_takeWhile_dropWhile] at h
  split at h
  · next rest hcut =>
    obtain ⟨-, hcut⟩ := Prod.mk.inj hcut
    rw [hcut]
    refine List.forall_mem_cons.2 ⟨by decide, not_blank_of_dropWhile ?_⟩
    exact not_blank_of_isExponent (Bool.and_eq_true_iff.1 h).2
  · cases h
  · next rest _ hcut =>
    obtain ⟨-, hcut⟩ := Prod.mk.inj hcut
    rw [hcut]
    exact List.forall_mem_cons.2
      ⟨by decide, not_blank_of_dropWhile (not_blank_of_isExponent h)⟩
  · next hcut =>
    obtain ⟨-, hcut⟩ := Prod.mk.inj hcut
    rw [hcut]
    exact not_blank_of_isExponent h

theorem trim_of_isNumber (h : isNumber s = true) : trim s = s := by
  have hblank := not_blank_of_isNumber h
  exact (trim_eq_self_iff s).2 ⟨fun c hc => hblank c (List.mem_of_mem_head? hc),
    fun c hc => hblank c (List.mem_of_getLast? hc)⟩

/-! ## Coercion -/

namespace Coercions

variable {c : Coercions}

/-- Floats are read from the words that look like numbers and have ASCII digits alone. -/
theorem isOk_read_float_iff (hc : Assoc.get? "float" c.custom = none) (s : String) :
    (c.read .float s).isOk ↔ isNumber (trim s.toList) = true ∧ PlainDigits (trim s.toList) := by
  have hread : c.read .float s = readFloat s := by
    rw [read, coerce, show ValueType.float.display = "float" from rfl, hc]
  rw [hread, ← read?_isSome_iff, readFloat]
  cases Decimal.read? (trim s.toList) <;> simp [Except.isOk, Except.toBool]

theorem isOk_read_int_iff (hc : Assoc.get? "int" c.custom = none) (s : String) :
    (c.read .int s).isOk ↔ (readInt64? (trim s.toList)).isSome := by
  have hread : c.read .int s = readInt s := by
    rw [read, coerce, show ValueType.int.display = "int" from rfl, hc]
  rw [hread, readInt]
  cases readInt64? (trim s.toList) <;> simp [Except.isOk, Except.toBool]

/-- A word with a dash in front is kept from being a flag if it looks like a number. -/
theorem looksLikeFlag_eq_false_iff {w : List Char} (hw : w.head? = some '-') :
    looksLikeFlag w = false ↔ isNumber w = true := by
  simp [looksLikeFlag, hw]

/-- Numbers and flags are told apart consistently just where a text that looks like a number has
ASCII digits alone and, if a dash starts it, no blank behind it. -/
theorem numbers_told_apart_iff (hfloat : Assoc.get? "float" c.custom = none)
    (hint : Assoc.get? "int" c.custom = none) (s : String) :
    (((c.read .float s).isOk ↔ isNumber (trim s.toList) = true) ∧
      ((c.read .int s).isOk → isNumber (trim s.toList) = true) ∧
      (s.toList.head? = some '-' → (looksLikeFlag s.toList = false ↔ (c.read .float s).isOk))) ↔
    (isNumber (trim s.toList) = true →
      PlainDigits (trim s.toList) ∧ (s.toList.head? = some '-' → trim s.toList = s.toList)) := by
  rw [isOk_read_float_iff hfloat, isOk_read_int_iff hint]
  constructor
  · rintro ⟨hnumber, -, hflag⟩ h
    refine ⟨(hnumber.2 h).2, fun hdash => ?_⟩
    exact trim_of_isNumber ((looksLikeFlag_eq_false_iff hdash).1 ((hflag hdash).2 (hnumber.2 h)))
  · intro h
    refine ⟨⟨And.left, fun hn => ⟨hn, (h hn).1⟩⟩, isNumber_of_readInt64?, fun hdash => ?_⟩
    rw [looksLikeFlag_eq_false_iff hdash]
    constructor
    · intro hn
      have hn' : isNumber (trim s.toList) = true := by rwa [trim_of_isNumber hn]
      exact ⟨hn', (h hn').1⟩
    · rintro ⟨hn, -⟩
      rwa [← (h hn).2 hdash]

/-- Signs, exponents and bare points. -/
theorem numbers_told_apart_exponent :
    ((builtin.read .float "-.5E+3").isOk ↔ isNumber (trim "-.5E+3".toList) = true) ∧
      ((builtin.read .int "-.5E+3").isOk → isNumber (trim "-.5E+3".toList) = true) ∧
      ("-.5E+3".toList.head? = some '-' →
        (looksLikeFlag "-.5E+3".toList = false ↔ (builtin.read .float "-.5E+3").isOk)) :=
  (numbers_told_apart_iff rfl rfl "-.5E+3").2 fun _ => ⟨by decide, fun _ => by decide⟩

/-- A number in Arabic digits is kept from being a flag, but is no number. -/
theorem foreign_digit_no_flag_no_number :
    ¬ ((builtin.read .float "-\u0663").isOk ↔ isNumber (trim "-\u0663".toList) = true) ∧
      ¬ (looksLikeFlag "-\u0663".toList = false ↔ (builtin.read .float "-\u0663").isOk) := by
  decide

end Coercions

end CommandShell
