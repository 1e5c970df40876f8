import CommandShell.Proofs.Json.RoundTrip
/-!
# The text over several lines

Line breaks and spaces between the lexemes do not count: over several lines the text of a value is
the document that it is without blanks, so that the same values are read back from it.

    the text of v, at any level, is cut into the lexemes of documentOf v      (scans_prettyText)
    parse? v.pretty = some v ↔ Exact maxDepth v                              (parse?_pretty_iff)
-/

namespace CommandShell.Json

open CommandShell.Text

section

variable {t : List Char} {ls : List Lexeme}

/-- A blank between lexemes is passed over. -/
theorem Scans.blank {c : Char} (hc : isJsonBlank c = true) (ht : Scans t ls) :
    Scans (c :: t) ls := by
  intro rest hrest
  have henter : Scan.read .between c = some (.between, []) := by
    show Scan.enter c = _
    unfold Scan.enter
    rw [if_pos hc]
  rw [List.cons_append, lexemesFrom_silent henter, ht rest hrest]

theorem Scans.newline (level : Nat) (ht : Scans t ls) : Scans (newline level ++ t) ls := by
  refine Scans.blank (by decide) ?_
  induction 2 * level with
  | zero => exact ht
  | succ n ih => exact ih.blank (by decide)

theorem ends_newline (level : Nat) (t rest : List Char) : Ends (newline level ++ t ++ rest) :=
  ends_cons (by decide) _

end

mutual

theorem scans_prettyText (level : Nat) : (v : Json) →
    Scans (prettyText level v) (documentOf v).lexemes
  | null => scans_compactText null
  | bool true => scans_compactText (bool true)
  | bool false => scans_compactText (bool false)
  | integer n => scans_compactText (integer n)
  | float x => scans_compactText (float x)
  | string s => scans_compactText (string s)
  | array [] => (scans_nil.cons rfl).cons rfl
  | array (a :: as) => by
    have hclose := (scans_nil.cons (c := ']') rfl).newline level
    obtain ⟨hitems, hends⟩ := scans_prettyItems (level + 1) as hclose (ends_newline level _)
    have hfirst := ((scans_prettyText (level + 1) a).append hitems hends).newline (level + 1)
    have h := Scans.cons (c := '[') rfl hfirst
    simpa [prettyText, documentOf, documentsOf, Document.lexemes] using h
  | fields [] => (scans_nil.cons rfl).cons rfl
  | fields ((k, v) :: rest) => by
    have hclose := (scans_nil.cons (c := '}') rfl).newline level
    obtain ⟨hfields, hends⟩ :=
      scans_prettyFields (level + 1) rest hclose (ends_newline level _)
    have hvalue := ((scans_prettyText (level + 1) v).append hfields hends).blank (c := ' ') rfl
    have hfirst := ((hvalue.cons (c := ':') rfl).quoted k).newline (level + 1)
    have h := Scans.cons (c := '{') rfl hfirst
    simpa [prettyText, documentOf, namedOf, Document.lexemes] using h

/-- Further items are read up to what closes their array. -/
theorem scans_prettyItems (level : Nat) : (vs : List Json) → {close : List Char} →
    {ls : List Lexeme} → Scans close ls → (∀ rest, Ends (close ++ rest)) →
    Scans (prettyItems level vs ++ close) (itemLexemes (documentsOf vs) ++ ls) ∧
      ∀ rest, Ends (prettyItems level vs ++ close ++ rest)
  | [], _, _, hclose, hends => ⟨hclose, hends⟩
  | a :: as, _, _, hclose, hends => by
    obtain ⟨hitems, hmore⟩ := scans_prettyItems level as hclose hends
    have hnext := ((scans_prettyText level a).append hitems hmore).newline level
    have h := Scans.cons (c := ',') rfl hnext
    refine ⟨?_, ends_cons (by decide)⟩
    simpa [prettyItems, documentsOf, itemLexemes] using h

/-- Further fields too. -/
theorem scans_prettyFields (level : Nat) : (named : List (String × Json)) →
    {close : List Char} → {ls : List Lexeme} → Scans close ls → (∀ rest, Ends (close ++ rest)) →
    Scans (prettyFields level named ++ close) (fieldLexemes (namedOf named) ++ ls) ∧
      ∀ rest, Ends (prettyFields level named ++ close ++ rest)
  | [], _, _, hclose, hends => ⟨hclose, hends⟩
  | (k, v) :: rest, _, _, hclose, hends => by
    obtain ⟨hfields, hmore⟩ := scans_prettyFields level rest hclose hends
    have hvalue := ((scans_prettyText level v).append hfields hmore).blank (c := ' ') rfl
    have hnext := ((hvalue.cons (c := ':') rfl).quoted k).newline level
    have h := Scans.cons (c := ',') rfl hnext
    refine ⟨?_, fun _ => ends_cons (by decide) _⟩
    simpa [prettyFields, namedOf, fieldLexemes] using h

end

/-- **Blanks between the lexemes do not count.** -/
theorem documentParse?_prettyText (level : Nat) (v : Json) :
    Document.parse? (prettyText level v) = some (documentOf v) :=
  documentParse?_of_scans (scans_prettyText level v)

/-- **Over several lines the same values are read back as without blanks.** -/
theorem parse?_pretty_iff (v : Json) : parse? v.pretty = some v ↔ Exact maxDepth v := by
  rw [parse?, pretty, String.toList_ofList, documentParse?_prettyText, Option.bind_some]
  exact ofDocument?_iff maxDepth v

end CommandShell.Json
