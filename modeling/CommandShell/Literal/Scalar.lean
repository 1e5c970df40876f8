import CommandShell.Text.Blank
import CommandShell.Text.Digit
/-!
# Numbers, flags and truth values among words

A word that starts with a dash is a flag unless it is a number, so that `-5` can be a value.

    looksLikeFlag w ↔ w starts with a dash and is no number               (looksLikeFlag)
    a truth value holds no dash                                     (not_mem_of_readBool?)
-/

namespace CommandShell.Literal

open CommandShell.Text

/-- The text without a sign in front. -/
def dropSign : List Char → List Char
  | '+' :: s => s
  | '-' :: s => s
  | s => s

/-- Whether the text is nothing, or an exponent with at least one digit. -/
def isExponent : List Char → Bool
  | [] => true
  | c :: s =>
    let digits := dropSign s
    (c = 'e' || c = 'E') && !digits.isEmpty && digits.all isDecimalDigit

/-- Whether the text is a decimal number: digits with at most one point among, before or behind
them, and an optional exponent. -/
def isUnsignedNumber (s : List Char) : Bool :=
  match s.span isDecimalDigit with
  | ([], '.' :: rest) =>
    let (fraction, rest) := rest.span isDecimalDigit
    !fraction.isEmpty && isExponent rest
  | ([], _) => false
  | (_, '.' :: rest) => isExponent (rest.dropWhile isDecimalDigit)
  | (_, rest) => isExponent rest

/-- Whether the word is a plain decimal number, with or without a sign. -/
def isNumber (word : List Char) : Bool := isUnsignedNumber (dropSign word)

/-- Whether the word is read as a flag; a lone dash is one, with no name. -/
def looksLikeFlag (word : List Char) : Bool := word.head? = some '-' && !isNumber word

/-- The name of a flag: the word without its two dashes, or without its one. -/
def flagName : List Char → List Char
  | '-' :: '-' :: name => name
  | '-' :: name => name
  | word => word

/-- Reads a truth value: true, yes, on and 1, or false, no, off and 0, in ASCII letters of
either case. -/
def readBool? (s : List Char) : Option Bool :=
  let word := String.ofList ((trim s).map Char.toLower)
  if word = "true" ∨ word = "yes" ∨ word = "on" ∨ word = "1" then some true
  else if word = "false" ∨ word = "no" ∨ word = "off" ∨ word = "0" then some false
  else none

/-- The digits of no script are blanks. -/
theorem not_blank_of_isDecimalDigit {c : Char} (h : isDecimalDigit c = true) :
    isBlank c = false := by
  obtain ⟨run, hrun, hin⟩ := List.any_eq_true.1 h
  have hapart : ∀ run ∈ decimalDigitRuns, 0x30 ≤ run.1 ∧ (run.2 < 0x85 ∨ 0xA0 < run.1) ∧
      (run.2 < 0x1680 ∨ 0x1680 < run.1) ∧ (run.2 < 0x2000 ∨ 0x3000 < run.1) := by decide
  obtain ⟨h1, h2, h3, h4⟩ := hapart run hrun
  simp only [Bool.and_eq_true, decide_eq_true_eq] at hin
  simp only [isBlank, Bool.or_eq_false_iff, Bool.and_eq_false_iff, decide_eq_false_iff_not,
    beq_eq_false_iff_ne]
  omega

/-- No truth value is written with a dash. -/
theorem not_mem_of_readBool? {s : List Char} (h : (readBool? s).isSome = true) : '-' ∉ s := by
  intro hmem
  have hdash : '-' ∈ (String.ofList ((trim s).map Char.toLower)).toList := by
    rw [String.toList_ofList]
    exact List.mem_map.2 ⟨'-', mem_trim_of_not_blank hmem (by decide), by decide⟩
  have hno : ∀ word ∈ ["true", "yes", "on", "1", "false", "no", "off", "0"], '-' ∉ word.toList := by
    decide
  unfold readBool? at h
  dsimp only at h
  split at h
  · next hword => rcases hword with he | he | he | he <;> exact hno _ (by simp) (he ▸ hdash)
  · split at h
    · next hword => rcases hword with he | he | he | he <;> exact hno _ (by simp) (he ▸ hdash)
    · cases h

end CommandShell.Literal
