import CommandShell.Proofs.Parse.Orders
/-!
# Parsing blames the arguments

The built-in strategies fail because of an argument: one that is missing, or one that does not
coerce.  That a strategy does not fit its command is found out at registration; none of them says
so when it parses.

    BlamesArguments x        x is no failure of the strategy
    no built-in strategy blames itself                        (Strategy.builtin_blamesArguments)
-/

namespace CommandShell

/-- If it fails then because of an argument, and not because the strategy does not fit. -/
def BlamesArguments {α : Type} (x : Except ParseFailure α) : Prop :=
  ∀ strategy reason, x ≠ .error (.strategyMismatch strategy reason)

variable {α β : Type} {x : Except ParseFailure α}

theorem blamesArguments_ok (a : α) : BlamesArguments (.ok a) := by
  intro strategy reason h
  cases h

theorem BlamesArguments.map (h : BlamesArguments x) (f : α → β) : BlamesArguments (x.map f) := by
  intro strategy reason hx
  cases x with
  | ok a => cases hx
  | error e =>
    have he : e = .strategyMismatch strategy reason := Except.error.inj hx
    exact h strategy reason (by rw [he])

/-- A failure that is passed on blames what it blamed before. -/
theorem BlamesArguments.error {e : ParseFailure} (h : BlamesArguments (.error e : Except _ α)) :
    BlamesArguments (.error e : Except _ β) := by
  intro strategy reason he
  exact h strategy reason (congrArg Except.error (Except.error.inj he))

section

variable (style : KeyStyle) (ctx : ParseContext) (found : List (String × Given))

theorem blamesArguments_coerceFor (p : Parameter) (given : Given) :
    BlamesArguments (coerceFor ctx p given) := by
  intro strategy reason h
  unfold coerceFor at h
  split at h <;> cases h

theorem blamesArguments_fallback (p : Parameter) : BlamesArguments (fallback ctx p) := by
  unfold fallback
  split
  · exact blamesArguments_coerceFor ctx p _
  · exact blamesArguments_ok _

theorem blamesArguments_fillOne (leftovers : List String) (p : Parameter)
    (prefilled : Option Value) :
    BlamesArguments (fillOne style ctx found leftovers p prefilled) := by
  unfold fillOne
  split
  · exact blamesArguments_ok _
  · split
    · split
      · exact (blamesArguments_coerceFor ctx p _).map _
      · split
        · intro strategy reason h
          cases h
        · exact (blamesArguments_fallback ctx p).map _
    · split
      · exact (blamesArguments_coerceFor ctx p _).map _
      · split
        · exact (blamesArguments_coerceFor ctx p _).map _
        · intro strategy reason h
          cases h

theorem blamesArguments_fillAll (prefilled : List (Nat × Value)) (position : Nat)
    (leftovers : List String) (ps : List Parameter) :
    BlamesArguments (fillAll style ctx prefilled found position leftovers ps) := by
  induction ps generalizing position leftovers with
  | nil => exact blamesArguments_ok _
  | cons p ps ih =>
    have hone := blamesArguments_fillOne style ctx found leftovers p (Assoc.get? position prefilled)
    rw [fillAll]
    cases hfill : fillOne style ctx found leftovers p (Assoc.get? position prefilled) with
    | error e =>
      rw [hfill] at hone
      exact hone.error
    | ok filled =>
      have hrest := ih (position + 1) filled.2
      dsimp only
      cases hfills : fillAll style ctx prefilled found (position + 1) filled.2 ps with
      | error e =>
        rw [hfills] at hrest
        exact hrest.error
      | ok filled => exact blamesArguments_ok _

theorem blamesArguments_backfill (values : List Value) (leftovers : List String)
    (order : List (Nat × Parameter)) : BlamesArguments (backfill ctx values leftovers order) := by
  induction order generalizing values leftovers with
  | nil => exact blamesArguments_ok _
  | cons place order ih =>
    rw [backfill]
    split
    · exact blamesArguments_ok _
    · next word rest _ =>
      have hcoerce := blamesArguments_coerceFor ctx place.2 (.text word)
      split
      · next e he =>
        rw [he] at hcoerce
        exact hcoerce.error
      · exact ih _ _

theorem blamesArguments_resolve (ps : List Parameter) (e : Extraction)
    (prefilled : List (Nat × Value)) : BlamesArguments (resolve ps e style ctx prefilled) := by
  have hfill := blamesArguments_fillAll style ctx e.flags prefilled 0 e.leftovers ps
  unfold resolve
  split
  · next failure hfailure =>
    rw [hfailure] at hfill
    exact hfill.error
  · exact blamesArguments_backfill ctx _ _ _

theorem blamesArguments_prefill (ps : List Parameter) (table : List (Nat × Collection)) :
    BlamesArguments (prefill ctx ps table) := by
  intro strategy reason h
  obtain ⟨_, _, _, _, -, -, -, hblames⟩ := blamesLiteral_of_prefill h
  cases hblames

theorem blamesArguments_rawValue (raw : String) (p : Parameter) :
    BlamesArguments (Strategy.rawValue raw ctx p) := by
  unfold Strategy.rawValue
  split
  · split
    · exact blamesArguments_ok _
    · intro strategy reason h
      cases h
  · exact blamesArguments_ok _

theorem blamesArguments_readEach_rawValue (raw : String) (ps : List Parameter) :
    BlamesArguments (readEach (Strategy.rawValue raw ctx) ps) := by
  induction ps with
  | nil => exact blamesArguments_ok _
  | cons p ps ih =>
    have hone := blamesArguments_rawValue ctx raw p
    rw [readEach]
    split
    · next e he =>
      rw [he] at hone
      exact hone.error
    · split
      · next e he =>
        rw [he] at ih
        exact ih.error
      · exact blamesArguments_ok _

end

/-- **No built-in strategy blames itself**, whatever the parameters. -/
theorem Strategy.builtin_blamesArguments {entry : String × Strategy}
    (h : entry ∈ Strategy.builtin) (ps : List Parameter) (raw : String) (ctx : ParseContext) :
    BlamesArguments (entry.2.parse ps raw ctx) := by
  simp only [Strategy.builtin, List.mem_cons, List.not_mem_nil, or_false] at h
  rcases h with rfl | rfl | rfl | rfl
  · exact blamesArguments_resolve .flags ctx ps _ []
  · exact blamesArguments_resolve .names ctx ps _ []
  · exact blamesArguments_readEach_rawValue ctx raw ps
  · have hbound := blamesArguments_prefill ctx ps (bindSpans ps raw.toList).1
    simp only [Strategy.spans]
    split
    · next e he =>
      rw [he] at hbound
      exact hbound.error
    · exact blamesArguments_resolve .flags ctx ps _ _

end CommandShell
