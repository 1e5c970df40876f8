import CommandShell.Parse.Builtin
import CommandShell.Proofs.Coercion.Soundness
import CommandShell.Proofs.Parse.Orders
import CommandShell.Proofs.Parse.Routes
/-!
# Parsing gives values of the declared types

With the built-in coercions, what a built-in strategy returns is one value for each parameter, of
the type that the parameter declares.  A value of an ambient type is the one its surroundings
supply, or null.  Null stands for any other type only where nothing at all was supplied.

    Unsupplied s ps i p            nothing gives the parameter a value
    Sound preset idle ps values    one value of the declared type for each parameter
    what resolve returns is sound                                           (sound_of_resolve)
    what every built-in strategy returns is sound                           (parse_sound)
-/

namespace CommandShell

/-- Nothing gives the parameter at a position a value: it has a flag that is optional and was not
given, no literal is bound to it, no leftover reaches it, it has no default, and its type has no
zero but null. -/
structure Unsupplied (s : Supply) (ps : List Parameter) (i : Nat) (p : Parameter) : Prop where
  keyed : s.style.isKeyed p = true
  optional : p.required = false
  noFlag : s.style.lookup p s.found = none
  noSpan : Assoc.get? i s.prefilled = none
  noLeftover : Assoc.get? i (s.shares ps) = none
  noDefault : p.default = none
  noZero : p.type ≠ .bool ∧ p.type ≠ .int ∧ p.type ≠ .float ∧ p.type ≠ .char

/-- What is right for the value of a parameter; `idle` says when null may stand for a value. -/
def Fitting (preset : String → Option Value) (idle : Prop) (t : ValueType) (v : Value) : Prop :=
  match t with
  | .ambient name => preset name = some v ∨ v = .null
  | _ => Inhabits v t ∨ v = .null ∧ idle

/-- One fitting value for each parameter, in order. -/
def Sound (preset : String → Option Value) (idle : Nat → Parameter → Prop) (ps : List Parameter)
    (values : List Value) : Prop :=
  values.length = ps.length ∧
    ∀ i p, ps[i]? = some p → ∃ v, values[i]? = some v ∧ Fitting preset (idle i p) p.type v

theorem Fitting.mono {preset : String → Option Value} {idle idle' : Prop} {t : ValueType}
    {v : Value} (h : Fitting preset idle t v) (himp : idle → idle') : Fitting preset idle' t v := by
  cases t with
  | ambient name => exact h
  | _ => exact Or.imp id (fun hnull => ⟨hnull.1, himp hnull.2⟩) h

theorem Sound.mono {preset : String → Option Value} {idle idle' : Nat → Parameter → Prop}
    {ps : List Parameter} {values : List Value} (h : Sound preset idle ps values)
    (himp : ∀ i p, ps[i]? = some p → idle i p → idle' i p) : Sound preset idle' ps values := by
  refine ⟨h.1, fun i p hp => ?_⟩
  obtain ⟨v, hv, hfit⟩ := h.2 i p hp
  exact ⟨v, hv, hfit.mono (himp i p hp)⟩

theorem fitting_of_inhabits {preset : String → Option Value} {idle : Prop} {t : ValueType}
    {v : Value} (h : Inhabits v t) : Fitting preset idle t v := by
  unfold Fitting
  split
  · cases h
  · exact Or.inl h

theorem inhabits_zero {t : ValueType} (h : t = .bool ∨ t = .int ∨ t = .float ∨ t = .char) :
    Inhabits (Value.zero t) t := by
  rcases h with rfl | rfl | rfl | rfl
  · exact .bool false
  · exact .int 0
  · exact .float 0
  · exact .char _

theorem zero_eq_null {t : ValueType} (h : t ≠ .bool ∧ t ≠ .int ∧ t ≠ .float ∧ t ≠ .char) :
    Value.zero t = .null := by
  obtain ⟨hb, hi, hf, hc⟩ := h
  cases t with
  | bool => exact absurd rfl hb
  | int => exact absurd rfl hi
  | float => exact absurd rfl hf
  | char => exact absurd rfl hc
  | _ => rfl

section Resolve

variable {preset : String → Option Value} {order : TableOrder} {s : Supply} {ps : List Parameter}
  {i : Nat} {p : Parameter} {v : Value}

theorem inhabits_of_coerceFor {given : Given} (hctx : s.ctx = ⟨.builtin, preset, order⟩)
    (h : coerceFor s.ctx p given = .ok v) : Inhabits v p.type := by
  unfold coerceFor at h
  rw [hctx] at h
  split at h
  · next w hw =>
    cases h
    exact Coercions.inhabits_of_coerce hw
  · cases h

theorem fitting_of_preset {idle : Prop} (hctx : s.ctx = ⟨.builtin, preset, order⟩)
    (h : s.ctx.presetFor p = some v) : Fitting preset idle p.type v := by
  unfold ParseContext.presetFor at h
  rw [hctx] at h
  split at h
  · next name hname =>
    rw [hname]
    exact Or.inl h
  · cases h

theorem fitting_zero (hp : s.route ps i p = .zero) (hkey : s.style.isKeyed p = true)
    (hreq : p.required = false) :
    Fitting preset (Unsupplied s ps i p) p.type (Value.zero p.type) := by
  obtain ⟨hready, hlookup, hshare, hdefault⟩ := Supply.routeWith_eq_zero hp
  by_cases hnull : p.type ≠ .bool ∧ p.type ≠ .int ∧ p.type ≠ .float ∧ p.type ≠ .char
  · have hidle : Unsupplied s ps i p :=
      ⟨hkey, hreq, hlookup hkey, (Option.or_eq_none_iff.1 hready).1, hshare, hdefault, hnull⟩
    rw [zero_eq_null hnull]
    unfold Fitting
    split
    · exact Or.inr rfl
    · exact Or.inr ⟨rfl, hidle⟩
  · refine fitting_of_inhabits (inhabits_zero ?_)
    by_contra hne
    simp only [not_or] at hne
    exact hnull hne

/-- Every route leads to a fitting value, if the values that are there from the start fit. -/
theorem fitting_of_route (hctx : s.ctx = ⟨.builtin, preset, order⟩)
    (hpre : ∀ v, Assoc.get? i s.prefilled = some v → Inhabits v p.type)
    (hv : (s.route ps i p).value s.ctx p = .ok v)
    (hzero : s.route ps i p = .zero → s.style.isKeyed p = true ∧ p.required = false) :
    Fitting preset (Unsupplied s ps i p) p.type v := by
  cases hr : s.route ps i p with
  | ready u =>
    rw [hr] at hv
    cases hv
    rcases Option.or_eq_some_iff.1 (Supply.routeWith_eq_ready_iff.1 hr) with h | ⟨-, h⟩
    · exact fitting_of_inhabits (hpre v h)
    · exact fitting_of_preset hctx h
  | flag name given =>
    rw [hr] at hv
    exact fitting_of_inhabits (inhabits_of_coerceFor hctx hv)
  | leftover word =>
    rw [hr] at hv
    exact fitting_of_inhabits (inhabits_of_coerceFor hctx hv)
  | default literal =>
    rw [hr] at hv
    exact fitting_of_inhabits (inhabits_of_coerceFor hctx hv)
  | zero =>
    rw [hr] at hv
    cases hv
    obtain ⟨hkey, hreq⟩ := hzero hr
    exact fitting_zero hr hkey hreq

theorem sound_of_resolve {values : List Value} (hctx : s.ctx = ⟨.builtin, preset, order⟩)
    (hpre : ∀ i p v, ps[i]? = some p → Assoc.get? i s.prefilled = some v → Inhabits v p.type)
    (h : s.values ps = .ok values) : Sound preset (Unsupplied s ps) ps values := by
  obtain ⟨hlen, hall⟩ := Supply.resolve_ok h
  refine ⟨hlen, fun i p hp => ?_⟩
  obtain ⟨v, hvalue, hv, hzero⟩ := hall i p hp
  exact ⟨v, hvalue, fitting_of_route hctx (hpre i p · hp) hv hzero⟩

end Resolve

/-! ## Strategies -/

section Strategies

variable {preset : String → Option Value} {order : TableOrder} {ps : List Parameter}
  {text : String} {values : List Value}

theorem rawValue_fitting {p : Parameter} {v : Value} {idle : Prop}
    (hmismatch : Strategy.rawMismatch ps = none) (hp : p ∈ ps)
    (h : Strategy.rawValue text ⟨.builtin, preset, order⟩ p = .ok v) :
    Fitting preset idle p.type v := by
  unfold Strategy.rawValue at h
  split at h
  · split at h
    · next w hw =>
      cases h
      exact fitting_of_preset (s := .ofExtraction .flags ⟨.builtin, preset, order⟩ [] .empty) rfl hw
    · cases h
  · next hambient =>
    cases h
    have hmem : p ∈ Strategy.textParameters ps := by
      refine List.mem_filter.2 ⟨hp, ?_⟩
      cases ht : p.type with
      | ambient name => exact absurd ht (hambient name)
      | _ => rfl
    unfold Strategy.rawMismatch at hmismatch
    split at hmismatch
    · next q hq =>
      rw [hq] at hmem
      obtain rfl := List.mem_singleton.1 hmem
      split at hmismatch
      · next hstr =>
        rw [hstr]
        exact Or.inl (.str text)
      · cases hmismatch
    · cases hmismatch

theorem raw_sound (hmismatch : Strategy.raw.mismatch ps = none)
    (h : Strategy.raw.parse ps text ⟨.builtin, preset, order⟩ = .ok values) :
    Sound preset (fun _ _ => False) ps values := by
  have hread : ps.map (Strategy.rawValue text ⟨.builtin, preset, order⟩) = values.map .ok :=
    (readEach_eq_ok_iff _ _ _).1 h
  refine ⟨by simpa using (congrArg List.length hread).symm, fun i p hp => ?_⟩
  have hi := congrArg (·[i]?) hread
  rw [List.getElem?_map, List.getElem?_map, hp] at hi
  cases hv : values[i]? with
  | none => simp [hv] at hi
  | some v =>
    rw [hv] at hi
    exact ⟨v, rfl, rawValue_fitting hmismatch (List.mem_of_getElem? hp) (Option.some.inj hi)⟩

theorem spans_parse_eq (ps : List Parameter) (text : String) (ctx : ParseContext) :
    Strategy.spans.parse ps text ctx =
      match prefill ctx ps (bindSpans ps text.toList).1 with
      | .error e => .error e
      | .ok prefilled =>
        (Supply.ofExtraction .flags ctx prefilled
          (flagExtraction ps (String.ofList (bindSpans ps text.toList).2))).values ps := by
  unfold Strategy.spans
  dsimp only
  cases bindSpans ps text.toList with
  | mk bound remainder => rfl

theorem spans_sound (h : Strategy.spans.parse ps text ⟨.builtin, preset, order⟩ = .ok values) :
    ∃ prefilled,
      prefill ⟨.builtin, preset, order⟩ ps (bindSpans ps text.toList).1 = .ok prefilled ∧
      Sound preset (fun i p => Assoc.get? i (bindSpans ps text.toList).1 = none ∧
        Unsupplied (.ofExtraction .flags ⟨.builtin, preset, order⟩ prefilled
          (flagExtraction ps (String.ofList (bindSpans ps text.toList).2))) ps i p) ps values := by
  rw [spans_parse_eq] at h
  split at h
  · cases h
  · next prefilled hprefilled =>
    have hbound (i : Nat) (p : Parameter) (hp : ps[i]? = some p) :=
      prefill_ok (nodup_bindSpans ps text.toList) hprefilled hp
    have hpre : ∀ i p v, ps[i]? = some p → Assoc.get? i prefilled = some v → Inhabits v p.type := by
      intro i p v hp hv
      rcases hbound i p hp with ⟨-, hnone⟩ | ⟨literal, w, -, hsome, hconvert⟩
      · cases hnone.symm.trans hv
      · obtain rfl : w = v := Option.some.inj (hsome.symm.trans hv)
        exact Coercions.inhabits_of_convert hconvert
    refine ⟨prefilled, hprefilled, (sound_of_resolve rfl hpre h).mono fun i p hp hidle => ?_⟩
    rcases hbound i p hp with ⟨hnone, -⟩ | ⟨literal, w, -, hsome, -⟩
    · exact ⟨hnone, hidle⟩
    · cases hidle.noSpan.symm.trans hsome

/-- **Type soundness of the built-in strategies**, in whatever order literals are converted.  Null
stands for a value only where nothing was supplied, and the strategy without parsing has no such
case. -/
theorem parse_sound (preset : String → Option Value) (order : TableOrder) (ps : List Parameter)
    (text : String) (values : List Value) :
    let ctx : ParseContext := ⟨.builtin, preset, order⟩
    (Strategy.flags.parse ps text ctx = .ok values →
      Sound preset (Unsupplied (.ofExtraction .flags ctx [] (flagExtraction ps text)) ps) ps
        values) ∧
    (Strategy.names.parse ps text ctx = .ok values →
      Sound preset (Unsupplied (.ofExtraction .names ctx [] (nameExtraction ps text)) ps) ps
        values) ∧
    (Strategy.raw.mismatch ps = none → Strategy.raw.parse ps text ctx = .ok values →
      Sound preset (fun _ _ => False) ps values) ∧
    (Strategy.spans.parse ps text ctx = .ok values →
      ∃ prefilled, prefill ctx ps (bindSpans ps text.toList).1 = .ok prefilled ∧
        Sound preset (fun i p => Assoc.get? i (bindSpans ps text.toList).1 = none ∧
          Unsupplied (.ofExtraction .flags ctx prefilled
            (flagExtraction ps (String.ofList (bindSpans ps text.toList).2))) ps i p) ps values) := by
  intro ctx
  refine ⟨fun h => ?_, fun h => ?_, raw_sound, spans_sound⟩
  · exact sound_of_resolve (s := .ofExtraction .flags ctx [] (flagExtraction ps text)) rfl
      (fun _ _ _ _ hv => by cases hv) h
  · exact sound_of_resolve (s := .ofExtraction .names ctx [] (nameExtraction ps text)) rfl
      (fun _ _ _ _ hv => by cases hv) h

theorem parse_sound_of_calls :
    let ps := [Parameter.flag "deep" .bool, .flag "tags" (.set .str), .named "rest" .str]
    let ctx : ParseContext := ⟨.builtin, fun _ => none, .asFilled⟩
    Sound ctx.preset (Unsupplied (.ofExtraction .flags ctx [] (flagExtraction ps "--deep word")) ps)
      ps [.bool true, .null, .str "word"] ∧
    Sound ctx.preset (Unsupplied (.ofExtraction .names ctx [] (nameExtraction ps "word")) ps)
      ps [.bool false, .null, .str "word"] ∧
    Sound ctx.preset (fun _ _ => False) [.named "rest" .str] [.str "--deep word"] ∧
    ∃ prefilled, prefill ctx ps (bindSpans ps "[a] c".toList).1 = .ok prefilled ∧
      Sound ctx.preset (fun i p => Assoc.get? i (bindSpans ps "[a] c".toList).1 = none ∧
        Unsupplied (.ofExtraction .flags ctx prefilled
          (flagExtraction ps (String.ofList (bindSpans ps "[a] c".toList).2))) ps i p) ps
        [.bool false, .set [.str "a"], .str "c"] := by
  intro ps ctx
  have hflags : Strategy.flags.parse ps "--deep word" ctx =
      .ok [.bool true, .null, .str "word"] := rfl
  have hnames : Strategy.names.parse ps "word" ctx =
      .ok [.bool false, .null, .str "word"] := by rfl
  have hraw : Strategy.raw.parse [.named "rest" .str] "--deep word" ctx =
      .ok [.str "--deep word"] := rfl
  have hspans : Strategy.spans.parse ps "[a] c" ctx =
      .ok [.bool false, .set [.str "a"], .str "c"] := by unfold ps ctx; rfl
  exact ⟨(parse_sound ctx.preset .asFilled ps "--deep word" _).1 hflags,
    (parse_sound ctx.preset .asFilled ps "word" _).2.1 hnames,
    (parse_sound ctx.preset .asFilled [.named "rest" .str] "--deep word" _).2.2.1 rfl hraw,
    (parse_sound ctx.preset .asFilled ps "[a] c" _).2.2.2 hspans⟩

end Strategies

end CommandShell
