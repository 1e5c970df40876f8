import CommandShell.Json.Document
import CommandShell.Json.Text
import CommandShell.Literal.Scalar
import Mathlib.Data.List.TakeDrop
/-!
# The texts of numbers

What is written for a whole number or a float is a number to both readers: the one of JSON, and
the one that tells numbers from flags among words, whatever their sign.

    Numeric s         s is a number among words, of the characters of JSON numbers
    integerText n and, if x is finite, floatText x are numeric, and Numeral.read? reads them
                                                  (numeric_integerText, numeric_floatText)
    a numeric text is no flag                     (Numeric.looksLikeFlag)
-/

namespace CommandShell.Json

open CommandShell.Text CommandShell.Literal CommandShell.Decimal

/-- The text is a number among words and holds only what JSON numbers are made of. -/
structure Numeric (s : List Char) : Prop where
  chars : ∀ c ∈ s, isNumeralChar c = true
  number : isNumber s = true

theorem Numeric.looksLikeFlag {s : List Char} (h : Numeric s) : looksLikeFlag s = false := by
  rw [Literal.looksLikeFlag, h.number, Bool.not_true, Bool.and_false]

/-! ## Digits, a point and an exponent -/

section

variable {a b e s : List Char}

theorem isNumeralChar_of_isDigit {c : Char} (h : c.isDigit = true) : isNumeralChar c = true := by
  simp only [isNumeralChar, h, Bool.true_or]

/-- A text is cut where the first character fails the test. -/
theorem span_append {test : Char → Bool} (ha : ∀ c ∈ a, test c = true)
    (hs : ∀ c, s.head? = some c → test c = false) : (a ++ s).span test = (a, s) := by
  have hnone : s.takeWhile test = [] ∧ s.dropWhile test = s := by
    cases s with
    | nil => exact ⟨rfl, rfl⟩
    | cons c s => simp [hs c rfl]
  rw [List.span_eq_takeWhile_dropWhile, List.takeWhile_append_of_pos ha,
    List.dropWhile_append_of_pos ha, hnone.1, hnone.2, List.append_nil]

/-- Nothing, or an exponent as words and JSON have it. -/
structure Exponent (e : List Char) : Prop where
  chars : ∀ c ∈ e, isNumeralChar c = true
  number : isExponent e = true
  json : (Numeral.readExponent? e).isSome

theorem exponent_nil : Exponent [] := ⟨by simp, rfl, rfl⟩

theorem Exponent.head (h : Exponent e) {c : Char} (hc : e.head? = some c) : c = 'e' ∨ c = 'E' := by
  cases e with
  | nil => cases hc
  | cons d e =>
    obtain rfl : d = c := Option.some.inj hc
    have hnumber := h.number
    simp only [isExponent, Bool.and_eq_true, Bool.or_eq_true, decide_eq_true_eq] at hnumber
    exact hnumber.1.1

theorem Exponent.stops (h : Exponent e) {test : Char → Bool} (hsmall : test 'e' = false)
    (hlarge : test 'E' = false) : ∀ c, e.head? = some c → test c = false := by
  intro c hc
  rcases h.head hc with rfl | rfl
  · exact hsmall
  · exact hlarge

/-- The digits of a whole number: a zero in front stands alone. -/
structure Whole (a : List Char) : Prop where
  digits : ∀ c ∈ a, c.isDigit = true
  ne_nil : a ≠ []
  zero : ∀ rest, a = '0' :: rest → rest = []

/-- A numeric text that begins with a digit and is a number in JSON too. -/
structure Unsigned (s : List Char) : Prop where
  chars : ∀ c ∈ s, isNumeralChar c = true
  number : isUnsignedNumber s = true
  json : ∀ negative, (Numeral.readUnsigned? negative s).isSome
  first : ∃ c rest, s = c :: rest ∧ c.isDigit = true

theorem Whole.chars (ha : Whole a) : ∀ c ∈ a, isNumeralChar c = true :=
  fun c hc => isNumeralChar_of_isDigit (ha.digits c hc)

theorem Whole.first (ha : Whole a) (s : List Char) :
    ∃ c rest, a ++ s = c :: rest ∧ c.isDigit = true := by
  cases a with
  | nil => exact absurd rfl ha.ne_nil
  | cons c a => exact ⟨c, a ++ s, rfl, ha.digits c List.mem_cons_self⟩

/-- What stands behind the digits is read by itself. -/
theorem Whole.readUnsigned? (ha : Whole a) (hs : ∀ c, s.head? = some c → c.isDigit = false)
    (negative : Bool) :
    Numeral.readUnsigned? negative (a ++ s) = Numeral.readTail? negative a s := by
  rw [Numeral.readUnsigned?, span_append ha.digits hs]
  split
  · next heq => exact absurd (Prod.mk.inj heq).1 ha.ne_nil
  · next heq => cases ha.zero _ (Prod.mk.inj heq).1
  · next heq =>
    obtain ⟨rfl, rfl⟩ := Prod.mk.inj heq
    rfl

theorem unsigned_whole (ha : Whole a) (he : Exponent e) : Unsigned (a ++ e) := by
  refine ⟨List.forall_mem_append.2 ⟨ha.chars, he.chars⟩, ?_, fun negative => ?_, ha.first e⟩
  · rw [isUnsignedNumber, span_append (fun c hc => isDecimalDigit_of_isDigit (ha.digits c hc))
      (he.stops (by decide) (by decide))]
    split
    · next heq => exact absurd (Prod.mk.inj heq).1 ha.ne_nil
    · next heq => exact absurd (Prod.mk.inj heq).1 ha.ne_nil
    · next heq =>
      have hhead := he.head (congrArg List.head? (Prod.mk.inj heq).2)
      exact absurd hhead (by decide)
    · next heq =>
      obtain rfl := (Prod.mk.inj heq).2
      exact he.number
  · rw [ha.readUnsigned? (he.stops (by decide) (by decide)), Numeral.readTail?.eq_2]
    · rw [Option.isSome_map]
      exact he.json
    · intro rest hrest
      exact absurd (he.head (congrArg List.head? hrest)) (by decide)

theorem unsigned_pointed (ha : Whole a) (hb : ∀ c ∈ b, c.isDigit = true) (hne : b ≠ [])
    (he : Exponent e) : Unsigned (a ++ '.' :: (b ++ e)) := by
  have hpoint (test : Char → Bool) (h : test '.' = false) :
      ∀ c, ('.' :: (b ++ e)).head? = some c → test c = false := fun c hc => by
    obtain rfl := Option.some.inj hc
    exact h
  refine ⟨?_, ?_, fun negative => ?_, ha.first _⟩
  · refine List.forall_mem_append.2 ⟨ha.chars, List.forall_mem_cons.2 ⟨by decide, ?_⟩⟩
    exact List.forall_mem_append.2 ⟨fun c hc => isNumeralChar_of_isDigit (hb c hc), he.chars⟩
  · rw [isUnsignedNumber, span_append (fun c hc => isDecimalDigit_of_isDigit (ha.digits c hc))
      (hpoint _ (by decide))]
    split
    · next heq => exact absurd (Prod.mk.inj heq).1 ha.ne_nil
    · next heq => exact absurd (Prod.mk.inj heq).1 ha.ne_nil
    · next heq =>
      obtain rfl := (List.cons.inj (Prod.mk.inj heq).2).2
      have hcut := span_append (fun c hc => isDecimalDigit_of_isDigit (hb c hc))
        (he.stops (by decide) (by decide))
      rw [List.span_eq_takeWhile_dropWhile] at hcut
      rw [(Prod.mk.inj hcut).2]
      exact he.number
    · next rest hno heq => exact absurd (Prod.mk.inj heq).2.symm (hno _)
  · rw [ha.readUnsigned? (hpoint _ (by decide)), Numeral.readTail?,
      span_append hb (he.stops (by decide) (by decide))]
    have hsome : b.isEmpty = false := by simpa using hne
    simp only [hsome, Bool.false_eq_true, if_false, Option.isSome_map]
    exact he.json

theorem Unsigned.numeric {s : List Char} (h : Unsigned s) :
    Numeric s ∧ (Numeral.read? s).isSome := by
  obtain ⟨c, rest, rfl, hc⟩ := h.first
  have hsign : dropSign (c :: rest) = c :: rest := by
    unfold dropSign
    split
    · next heq =>
      cases heq
      exact absurd hc (by decide)
    · next heq =>
      cases heq
      exact absurd hc (by decide)
    · rfl
  refine ⟨⟨h.chars, by rw [isNumber, hsign, h.number]⟩, ?_⟩
  rw [Numeral.read?.eq_2]
  · exact h.json false
  · intro s heq
    cases heq
    exact absurd hc (by decide)

/-- A minus sign may stand in front. -/
theorem Unsigned.negated {s : List Char} (h : Unsigned s) :
    Numeric ('-' :: s) ∧ (Numeral.read? ('-' :: s)).isSome :=
  ⟨⟨List.forall_mem_cons.2 ⟨by decide, h.chars⟩, h.number⟩, h.json true⟩

end

/-! ## The shortest digits -/

/-- Zero is not near a double that is not zero. -/
theorem Interval.holds_zero {i : Interval} (hlow : 0 < i.low) (power : Int) :
    i.holds 0 power = false := by
  have hscale : 0 < i.low * Nat.pow 10 (-power).toNat :=
    Nat.mul_pos hlow (Nat.pow_pos (by decide))
  unfold Interval.holds
  simp only [Nat.zero_mul]
  split
  · simp only [Bool.and_eq_false_iff, decide_eq_false_iff_not]
    exact Or.inl (by omega)
  · simp only [Bool.and_eq_false_iff, decide_eq_false_iff_not]
    exact Or.inl (by omega)

theorem Interval.search_zero {i : Interval} (hlow : 0 < i.low) (leading : Int) (fuel digits : Nat)
    (h : (i.search leading fuel digits).1 = 0) : (i.search leading fuel digits).2 = 0 := by
  induction fuel generalizing digits with
  | zero => rfl
  | succ fuel ih =>
    rw [Interval.search] at h ⊢
    split at h
    · next n hnearest =>
      -- a point of the grid that was found is not zero
      have hholds := List.find?_some hnearest
      obtain rfl : n = 0 := h
      rw [Interval.holds_zero hlow] at hholds
      cases hholds
    · exact ih _ h

theorem dropZeros_zero (fuel n : Nat) (power : Int) (h : (dropZeros fuel n power).1 = 0) :
    n = 0 ∧ (dropZeros fuel n power).2 = power := by
  induction fuel generalizing n power with
  | zero => exact ⟨h, rfl⟩
  | succ fuel ih =>
    rw [dropZeros] at h ⊢
    split at h
    · next hn =>
      obtain ⟨hzero, -⟩ := ih _ _ h
      omega
    · next hn =>
      rw [if_neg hn]
      exact ⟨h, rfl⟩

theorem low_interval_pos {b : Binary} (hm : 0 < b.mantissa) : 0 < b.interval.low := by
  have hup : 0 < Nat.pow 2 (b.exponent - 2).toNat := Nat.pow_pos (by decide)
  refine Nat.mul_pos ?_ hup
  split <;> omega

theorem mantissa_ofBits_pos {bits : Nat} (h : bits < Nat.pow 2 63) (hne : bits ≠ 0) :
    0 < (Binary.ofBits bits).mantissa := by
  have hlarge : Nat.pow 2 63 = 9223372036854775808 := rfl
  have hsmall : Nat.pow 2 52 = 4503599627370496 := rfl
  have hfield : Nat.pow 2 11 = 2048 := rfl
  rw [hlarge] at h
  unfold Binary.ofBits
  simp only [hsmall, hfield]
  split
  · next hzero =>
    show 0 < bits % 4503599627370496
    omega
  · show 0 < bits % 4503599627370496 + 4503599627370496
    omega

/-- Only the digit zero itself begins with zero. -/
theorem exponent_of_coefficient {x : Float} (h : (shortest x).coefficient = 0) :
    (shortest x).exponent = 0 := by
  unfold shortest at h ⊢
  dsimp only at h ⊢
  split at h
  · next hzero => rw [if_pos hzero]
  · next hzero =>
    rw [if_neg hzero]
    have hbits : x.toBits.toNat % Nat.pow 2 63 < Nat.pow 2 63 := Nat.mod_lt _ (by decide)
    obtain ⟨hn, hpower⟩ := dropZeros_zero _ _ _ h
    exact hpower.trans (Interval.search_zero (low_interval_pos (mantissa_ofBits_pos hbits hzero))
      _ _ _ hn)

/-! ## Written numbers -/

theorem isDigit_of_mem_natDigits {n : Nat} {c : Char} (h : c ∈ natDigits n) : c.isDigit = true :=
  Nat.isDigit_of_mem_toDigits (by decide) (by decide) h

theorem natDigits_ne_nil (n : Nat) : natDigits n ≠ [] := Nat.toDigits_ne_nil

theorem zero_of_natDigits {n : Nat} {rest : List Char} (h : natDigits n = '0' :: rest) :
    n = 0 := by
  have hdigit : ∀ d < 10, Nat.digitChar d = '0' → d = 0 := by decide
  induction n using Nat.strongRecOn generalizing rest with
  | ind n ih =>
    rw [natDigits, Nat.toDigits_eq_if (by decide)] at h
    split at h
    · next hlt => exact hdigit n hlt (List.cons.inj h).1
    · next hge =>
      have hless : n / 10 < n := by omega
      -- the first digit is that of the number without its last digit
      cases hhigh : Nat.toDigits 10 (n / 10) with
      | nil => exact absurd hhigh Nat.toDigits_ne_nil
      | cons c high =>
        rw [hhigh] at h
        have hc : c = '0' := (List.cons.inj h).1
        rw [hc] at hhigh
        have hzero := ih _ hless hhigh
        omega

theorem whole_natDigits (n : Nat) : Whole (natDigits n) where
  digits _ hc := isDigit_of_mem_natDigits hc
  ne_nil := natDigits_ne_nil n
  zero rest h := by
    rw [zero_of_natDigits h] at h
    exact (List.cons.inj h).2.symm

theorem unsigned_natDigits (n : Nat) : Unsigned (natDigits n) := by
  have h := unsigned_whole (whole_natDigits n) exponent_nil
  rwa [List.append_nil] at h

/-- The text of a whole number is numeric, and is a number in JSON. -/
theorem numeric_integerText (n : Int) :
    Numeric (integerText n) ∧ (Numeral.read? (integerText n)).isSome := by
  unfold integerText intText
  split
  · rw [String.toList_ofList]
    exact (unsigned_natDigits n.natAbs).negated
  · rw [String.toList_ofList]
    exact (unsigned_natDigits n.natAbs).numeric

/-- A sign with digits behind it makes an exponent. -/
theorem exponent_mark {sign : Char} (hsign : sign = '+' ∨ sign = '-') (n : Nat) :
    Exponent ('e' :: sign :: natDigits n) := by
  have hdigits : (natDigits n).all isDecimalDigit = true :=
    List.all_eq_true.2 fun c hc => isDecimalDigit_of_isDigit (isDigit_of_mem_natDigits hc)
  have hread : (readDigits? (natDigits n)).isSome := by
    have hall : (natDigits n).all Char.isDigit = true :=
      List.all_eq_true.2 fun c hc => isDigit_of_mem_natDigits hc
    rw [readDigits?, if_pos ⟨natDigits_ne_nil n, hall⟩]
    rfl
  have hne : (natDigits n).isEmpty = false := by simpa using natDigits_ne_nil n
  have hchars : ∀ c ∈ natDigits n, isNumeralChar c = true :=
    fun c hc => isNumeralChar_of_isDigit (isDigit_of_mem_natDigits hc)
  rcases hsign with rfl | rfl
  · refine ⟨List.forall_mem_cons.2 ⟨by decide, List.forall_mem_cons.2 ⟨by decide, hchars⟩⟩, ?_, ?_⟩
    · simp [isExponent, dropSign, hne, hdigits]
    · simpa [Numeral.readExponent?, readInt?] using hread
  · refine ⟨List.forall_mem_cons.2 ⟨by decide, List.forall_mem_cons.2 ⟨by decide, hchars⟩⟩, ?_, ?_⟩
    · simp [isExponent, dropSign, hne, hdigits]
    · simpa [Numeral.readExponent?, readInt?] using hread

theorem unsigned_pointedDigits {digits e : List Char} (hdigits : Whole digits) (he : Exponent e) :
    Unsigned (pointed digits ++ e) := by
  unfold pointed
  split
  · exact absurd rfl hdigits.ne_nil
  · exact unsigned_whole hdigits he
  · next d rest hrest =>
    obtain ⟨hd, hall⟩ := List.forall_mem_cons.1 hdigits.digits
    have hfirst : Whole [d] := ⟨by simpa using hd, by simp, fun rest h => (List.cons.inj h).2.symm⟩
    exact unsigned_pointed hfirst hall (fun hnil => hrest (by rw [hnil])) he

/-- Zeros may stand behind digits that are not zero. -/
theorem Whole.append_zeros {digits : List Char} (h : Whole digits) {n : Nat}
    (hn : digits = ['0'] → n = 0) : Whole (digits ++ List.replicate n '0') where
  digits := by
    refine List.forall_mem_append.2 ⟨h.digits, fun c hc => ?_⟩
    rw [List.eq_of_mem_replicate hc]
    rfl
  ne_nil := List.append_ne_nil_of_left_ne_nil h.ne_nil _
  zero rest heq := by
    cases hdigits : digits with
    | nil => exact absurd hdigits h.ne_nil
    | cons c others =>
      rw [hdigits, List.cons_append, List.cons.injEq] at heq
      obtain ⟨rfl, rfl⟩ := heq
      have hothers := h.zero others hdigits
      rw [hothers] at hdigits
      rw [hothers, hn hdigits]
      rfl

theorem unsigned_positional {digits : List Char} (hdigits : Whole digits) {leading : Int}
    (hzero : digits = ['0'] → leading ≤ 0) : Unsigned (positional digits leading) := by
  have hzeros (n : Nat) : ∀ c ∈ List.replicate n '0', c.isDigit = true := by
    intro c hc
    rw [List.eq_of_mem_replicate hc]
    rfl
  have hnought : Whole ['0'] := ⟨by simp, by simp, fun rest h => (List.cons.inj h).2.symm⟩
  unfold positional
  dsimp only
  split
  · have h := unsigned_pointed hnought
      (List.forall_mem_append.2 ⟨hzeros (leading.natAbs - 1), hdigits.digits⟩)
      (List.append_ne_nil_of_right_ne_nil _ hdigits.ne_nil) exponent_nil
    simpa using h
  · next hleading =>
    split
    · have hwhole := hdigits.append_zeros (n := leading.toNat + 1 - digits.length) fun hd => by
        have hle := hzero hd
        rw [hd, List.length_singleton]
        omega
      exact unsigned_pointed (b := ['0']) hwhole (by simp) (by simp) exponent_nil
    · next hlength =>
      have hwhole : Whole (digits.take (leading.toNat + 1)) := by
        refine ⟨fun c hc => hdigits.digits c (List.mem_of_mem_take hc), by simp [hdigits.ne_nil],
          fun rest heq => ?_⟩
        cases hcut : digits with
        | nil => exact absurd hcut hdigits.ne_nil
        | cons c others =>
          rw [hcut, List.take_succ_cons, List.cons.injEq] at heq
          obtain ⟨rfl, rfl⟩ := heq
          rw [hdigits.zero others hcut, List.take_nil]
      have hrest : digits.drop (leading.toNat + 1) ≠ [] := by
        rw [ne_eq, List.drop_eq_nil_iff]
        exact hlength
      have h := unsigned_pointed hwhole
        (fun c hc => hdigits.digits c (List.mem_of_mem_drop hc)) hrest exponent_nil
      rwa [List.append_nil] at h

/-- Without its sign a float is written in one way or the other, by its leading power of ten. -/
theorem unsigned_magnitude {digits : List Char} (hdigits : Whole digits) {leading : Int}
    (hzero : digits = ['0'] → leading ≤ 0) :
    Unsigned (if Style.signed.leastPositional ≤ leading ∧ leading ≤ Style.signed.greatestPositional
      then positional digits leading
      else if leading < 0 then
        pointed digits ++ Style.signed.negativeMark ++ natDigits leading.natAbs
      else pointed digits ++ Style.signed.positiveMark ++ natDigits leading.natAbs) := by
  split
  · exact unsigned_positional hdigits hzero
  · split
    · rw [List.append_assoc]
      exact unsigned_pointedDigits hdigits (exponent_mark (Or.inr rfl) leading.natAbs)
    · rw [List.append_assoc]
      exact unsigned_pointedDigits hdigits (exponent_mark (Or.inl rfl) leading.natAbs)

/-- So is that of a finite float. -/
theorem numeric_floatText {x : Float} (hx : x.isFinite = true) :
    Numeric (floatText x) ∧ (Numeral.read? (floatText x)).isSome := by
  have hzero : natDigits (shortest x).coefficient = ['0'] →
      (shortest x).exponent + (natDigits (shortest x).coefficient).length - 1 ≤ 0 := by
    intro h
    rw [h, exponent_of_coefficient (zero_of_natDigits h)]
    decide
  have hunsigned := unsigned_magnitude (whole_natDigits (shortest x).coefficient) hzero
  rw [floatText, if_pos hx, Style.write]
  split
  · exact hunsigned.negated
  · exact hunsigned.numeric

end CommandShell.Json
