import CommandShell.Parse.Builtin
/-!
# Arguments and surroundings

What the surroundings of a call supply is looked up for ambient parameters and for no others, so a
command without any gets the same arguments everywhere.  What `resolve` finds in a table of values
it looks up by position, so it does not matter in which order the table came about.

    surroundings that supply the same to every parameter lead to the same values
                                      (resolve_of_presets, Strategy.builtin_parse_of_presets)
    parameters that are not ambient are supplied nothing         (presetFor_of_not_ambient)
-/

namespace CommandShell

variable {c : Coercions} {f f' : String → Option Value} {o o' : TableOrder} {ps : List Parameter}
  {prefilled prefilled' : List (Nat × Value)}

theorem fillOne_of_presets {p : Parameter}
    (h : ParseContext.presetFor ⟨c, f, o⟩ p = ParseContext.presetFor ⟨c, f', o'⟩ p)
    (style : KeyStyle) (found : List (String × Given)) (leftovers : List String)
    (value : Option Value) :
    fillOne style ⟨c, f, o⟩ found leftovers p value =
      fillOne style ⟨c, f', o'⟩ found leftovers p value := by
  unfold fillOne
  rw [h]
  rfl

theorem fillAll_of_presets
    (h : ∀ p ∈ ps, ParseContext.presetFor ⟨c, f, o⟩ p = ParseContext.presetFor ⟨c, f', o'⟩ p)
    (hvalues : ∀ i, Assoc.get? i prefilled = Assoc.get? i prefilled') (style : KeyStyle)
    (found : List (String × Given)) (position : Nat) (leftovers : List String) :
    fillAll style ⟨c, f, o⟩ prefilled found position leftovers ps =
      fillAll style ⟨c, f', o'⟩ prefilled' found position leftovers ps := by
  induction ps generalizing position leftovers with
  | nil => rfl
  | cons p ps ih =>
    have hrest := ih fun q hq => h q (List.mem_cons_of_mem _ hq)
    simp only [fillAll, hvalues position, fillOne_of_presets (h p List.mem_cons_self), hrest]

theorem backfill_of_presets (c : Coercions) (f f' : String → Option Value) (o o' : TableOrder)
    (values : List Value) (leftovers : List String) (places : List (Nat × Parameter)) :
    backfill ⟨c, f, o⟩ values leftovers places = backfill ⟨c, f', o'⟩ values leftovers places := by
  induction places generalizing values leftovers with
  | nil => rfl
  | cons place places ih =>
    have hcoerce (given : Given) :
        coerceFor ⟨c, f, o⟩ place.2 given = coerceFor ⟨c, f', o'⟩ place.2 given := rfl
    simp only [backfill, hcoerce, ih]

theorem resolve_of_presets
    (h : ∀ p ∈ ps, ParseContext.presetFor ⟨c, f, o⟩ p = ParseContext.presetFor ⟨c, f', o'⟩ p)
    (hvalues : ∀ i, Assoc.get? i prefilled = Assoc.get? i prefilled') (e : Extraction)
    (style : KeyStyle) :
    resolve ps e style ⟨c, f, o⟩ prefilled = resolve ps e style ⟨c, f', o'⟩ prefilled' := by
  simp only [resolve, fillAll_of_presets h hvalues, backfill_of_presets c f f' o o']

/-- Literals do not look at their surroundings. -/
theorem convertBound_of_coercions (c : Coercions) (f f' : String → Option Value)
    (o o' : TableOrder) (table : List (Nat × Collection)) :
    convertBound ⟨c, f, o⟩ ps table = convertBound ⟨c, f', o'⟩ ps table := by
  induction table with
  | nil => rfl
  | cons entry table ih => simp only [convertBound, ih]

theorem readEach_rawValue_of_presets
    (h : ∀ p ∈ ps, ParseContext.presetFor ⟨c, f, o⟩ p = ParseContext.presetFor ⟨c, f', o'⟩ p)
    (raw : String) :
    readEach (Strategy.rawValue raw ⟨c, f, o⟩) ps =
      readEach (Strategy.rawValue raw ⟨c, f', o'⟩) ps := by
  induction ps with
  | nil => rfl
  | cons p ps ih =>
    have hvalue : Strategy.rawValue raw ⟨c, f, o⟩ p = Strategy.rawValue raw ⟨c, f', o'⟩ p := by
      simp only [Strategy.rawValue, h p List.mem_cons_self]
    simp only [readEach, hvalue, ih fun q hq => h q (List.mem_cons_of_mem _ hq)]

/-- A built-in strategy finds the same values in other surroundings that supply the same to every
parameter. -/
theorem Strategy.builtin_parse_of_presets {entry : String × Strategy}
    (hs : entry ∈ Strategy.builtin)
    (h : ∀ p ∈ ps, ParseContext.presetFor ⟨c, f, o⟩ p = ParseContext.presetFor ⟨c, f', o⟩ p)
    (raw : String) : entry.2.parse ps raw ⟨c, f, o⟩ = entry.2.parse ps raw ⟨c, f', o⟩ := by
  simp only [Strategy.builtin, List.mem_cons, List.not_mem_nil, or_false] at hs
  rcases hs with rfl | rfl | rfl | rfl
  · exact resolve_of_presets h (fun _ => rfl) _ _
  · exact resolve_of_presets h (fun _ => rfl) _ _
  · exact readEach_rawValue_of_presets h raw
  · simp only [Strategy.spans, prefill, convertBound_of_coercions c f f' o o,
      resolve_of_presets h fun _ => rfl]

theorem presetFor_of_not_ambient {p : Parameter} (h : p.type.isAmbient = false)
    (ctx : ParseContext) : ctx.presetFor p = none := by
  unfold ParseContext.presetFor
  cases hp : p.type with
  | ambient name => simp [hp, ValueType.isAmbient] at h
  | _ => rfl

end CommandShell
