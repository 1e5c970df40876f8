import CommandShell.Parse.Resolution
import Mathlib.Data.List.Basic
/-!
# Who takes which leftover

Leftovers go out in one order: first to the parameters without a flag, as they stand, then to the
optional ones whose flag was not given, the joint one last.  `consumers` is that order, `handOut`
walks the queue along it, and `shares` says who ends up with which words.  Nothing here looks at
values: which words a parameter gets depends on the parameters and the flags found alone.

    handOut (as ++ bs) = handOut as, then handOut bs on what is left       (handOut_append)
    x ∈ openLast all ↔ x ∈ all and x is open                               (mem_openLast)
-/

namespace CommandShell

/-- Parameters with their positions, of which the first is `n`. -/
def positioned (n : Nat) (ps : List Parameter) : List (Nat × Parameter) :=
  (ps.zipIdx n).map Prod.swap

/-- Hands a queue of words out: who got what, and the words that nobody took. -/
def handOut : List (Nat × Parameter) → List String → List (Nat × String) × List String
  | [], queue => ([], queue)
  | (i, p) :: rest, queue =>
    match takeLeftover p.joint queue with
    | none => handOut rest queue
    | some (word, queue) => ((i, word) :: (handOut rest queue).1, (handOut rest queue).2)

/-- What `resolve` fills parameters from. -/
structure Supply where
  style : KeyStyle
  ctx : ParseContext
  prefilled : List (Nat × Value)
  found : List (String × Given)
  leftovers : List String

namespace Supply

/-- What `resolve` is given by a strategy that took a text apart. -/
def ofExtraction (style : KeyStyle) (ctx : ParseContext) (prefilled : List (Nat × Value))
    (e : Extraction) : Supply :=
  ⟨style, ctx, prefilled, e.flags, e.leftovers⟩

variable (s : Supply)

/-- The value of a parameter that is there before flags and leftovers are looked at. -/
def ready? (i : Nat) (p : Parameter) : Option Value :=
  (Assoc.get? i s.prefilled).or (s.ctx.presetFor p)

/-- Whether a parameter has nothing but the leftovers to be filled from. -/
def isKeyless : Nat × Parameter → Bool
  | (i, p) => (s.ready? i p).isNone && !s.style.isKeyed p

/-- Whether a parameter may be filled from the leftovers because its flag was not given.  A truth
value is not: without its flag it is false. -/
def isOpen : Nat × Parameter → Bool
  | (i, p) =>
    (s.ready? i p).isNone && s.style.isKeyed p && (s.style.lookup p s.found).isNone &&
      !p.required && p.type ≠ .bool

/-- The open ones among some parameters, the joint one last. -/
def openLast (all : List (Nat × Parameter)) : List (Nat × Parameter) :=
  (all.filter s.isOpen).filter (fun (_, p) => !p.joint) ++
    (all.filter s.isOpen).filter fun (_, p) => p.joint

/-- The parameters that take leftovers, in their order. -/
def consumers (ps : List Parameter) : List (Nat × Parameter) :=
  (positioned 0 ps).filter s.isKeyless ++ s.openLast (positioned 0 ps)

/-- The words that go to each position. -/
def shares (ps : List Parameter) : List (Nat × String) := (handOut (s.consumers ps) s.leftovers).1

end Supply

/-! ## Lemmas -/

theorem takeLeftover_eq_none_iff (joint : Bool) (queue : List String) :
    takeLeftover joint queue = none ↔ queue = [] := by
  cases queue with
  | nil => simp [takeLeftover]
  | cons w ws => cases joint <;> simp [takeLeftover]

theorem handOut_nil (order : List (Nat × Parameter)) : handOut order [] = ([], []) := by
  induction order with
  | nil => rfl
  | cons x order ih =>
    rw [handOut, (takeLeftover_eq_none_iff _ _).2 rfl]
    exact ih

theorem handOut_append (as bs : List (Nat × Parameter)) (queue : List String) :
    handOut (as ++ bs) queue =
      ((handOut as queue).1 ++ (handOut bs (handOut as queue).2).1,
        (handOut bs (handOut as queue).2).2) := by
  induction as generalizing queue with
  | nil => rfl
  | cons x as ih =>
    obtain ⟨i, p⟩ := x
    rw [List.cons_append, handOut, handOut]
    cases takeLeftover p.joint queue with
    | none => exact ih queue
    | some taken => simp only [ih, List.cons_append]

theorem mem_of_mem_handOut {order : List (Nat × Parameter)} {queue : List String} {i : Nat}
    {w : String} (h : (i, w) ∈ (handOut order queue).1) : ∃ p, (i, p) ∈ order := by
  induction order generalizing queue with
  | nil => simp [handOut] at h
  | cons x order ih =>
    obtain ⟨j, p⟩ := x
    rw [handOut] at h
    split at h
    · obtain ⟨q, hq⟩ := ih h
      exact ⟨q, List.mem_cons_of_mem _ hq⟩
    · rcases List.mem_cons.1 h with h | h
      · cases h
        exact ⟨p, List.mem_cons_self⟩
      · obtain ⟨q, hq⟩ := ih h
        exact ⟨q, List.mem_cons_of_mem _ hq⟩

theorem get?_handOut_eq_none {order : List (Nat × Parameter)} {queue : List String} {i : Nat}
    (h : ∀ p, (i, p) ∉ order) : Assoc.get? i (handOut order queue).1 = none := by
  cases hw : Assoc.get? i (handOut order queue).1 with
  | none => rfl
  | some w =>
    obtain ⟨p, hp⟩ := mem_of_mem_handOut (Assoc.mem_of_get? hw)
    exact absurd hp (h p)

theorem positioned_cons (n : Nat) (p : Parameter) (ps : List Parameter) :
    positioned n (p :: ps) = (n, p) :: positioned (n + 1) ps := rfl

theorem mem_positioned_iff {n i : Nat} {p : Parameter} {ps : List Parameter} :
    (i, p) ∈ positioned n ps ↔ n ≤ i ∧ ps[i - n]? = some p := by
  unfold positioned
  rw [List.mem_map]
  constructor
  · rintro ⟨⟨q, j⟩, hx, he⟩
    cases he
    exact List.mem_zipIdx_iff_le_and_getElem?_sub.1 hx
  · intro h
    exact ⟨(p, i), List.mem_zipIdx_iff_le_and_getElem?_sub.2 h, rfl⟩

theorem positioned_injective {n i : Nat} {p q : Parameter} {ps : List Parameter}
    (hp : (i, p) ∈ positioned n ps) (hq : (i, q) ∈ positioned n ps) : p = q := by
  have hp := (mem_positioned_iff.1 hp).2
  rw [(mem_positioned_iff.1 hq).2] at hp
  exact (Option.some.inj hp).symm

theorem get?_handOut_before {n i : Nat} (h : i < n) (keep : Nat × Parameter → Bool)
    (ps : List Parameter) (queue : List String) :
    Assoc.get? i (handOut ((positioned n ps).filter keep) queue).1 = none := by
  refine get?_handOut_eq_none fun p hp => ?_
  have := (mem_positioned_iff.1 (List.mem_of_mem_filter hp)).1
  omega

theorem get?_handOut_elsewhere {n i : Nat} (h : i ≠ n) (keep : Nat × Parameter → Bool)
    (p : Parameter) (queue : List String) :
    Assoc.get? i (handOut ([(n, p)].filter keep) queue).1 = none := by
  refine get?_handOut_eq_none fun q hq => ?_
  have := List.mem_singleton.1 (List.mem_of_mem_filter hq)
  rw [Prod.mk.injEq] at this
  exact h this.1

/-- A parameter stands at one position only. -/
theorem nodup_positioned (n : Nat) (ps : List Parameter) :
    ((positioned n ps).map Prod.fst).Nodup := by
  have : (positioned n ps).map Prod.fst = (ps.zipIdx n).map Prod.snd := by
    simp [positioned, Function.comp_def]
  rw [this, List.zipIdx_map_snd]
  exact List.nodup_range'

namespace Supply

variable {s : Supply}

/-- The keyless take from the whole queue, the open ones from what these leave. -/
theorem shares_eq (s : Supply) (ps : List Parameter) :
    let keyless := handOut ((positioned 0 ps).filter s.isKeyless) s.leftovers
    s.shares ps = keyless.1 ++ (handOut (s.openLast (positioned 0 ps)) keyless.2).1 := by
  intro keyless
  rw [shares, consumers, handOut_append]

theorem mem_openLast {all : List (Nat × Parameter)} {x : Nat × Parameter} :
    x ∈ s.openLast all ↔ x ∈ all ∧ s.isOpen x = true := by
  unfold openLast
  simp only [List.mem_append, List.mem_filter]
  cases x.2.joint <;> simp

theorem nodup_openLast {all : List (Nat × Parameter)} (h : (all.map Prod.fst).Nodup) :
    ((s.openLast all).map Prod.fst).Nodup := by
  have hopen := h.sublist ((List.filter_sublist (p := s.isOpen)).map Prod.fst)
  refine (List.Perm.nodup_iff ((?_ : List.Perm _ _).map Prod.fst)).1 hopen
  unfold openLast
  simpa using (List.filter_append_perm (fun x : Nat × Parameter => !x.2.joint)
    (all.filter s.isOpen)).symm

end Supply

end CommandShell
