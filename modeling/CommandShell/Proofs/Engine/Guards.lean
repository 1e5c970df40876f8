import CommandShell.Engine.World
import Mathlib.Data.List.Induction
/-!
# Guards of explicit sessions

A thread may open any number of sessions by name and dispose of their guards in any order.  A guard
gives its thread back what it was bound to when the guard was opened, and by then that may have
been disposed of, too.

    Guarded th              a world, and the guards that a thread has open in it, newest first
    Backed                  a thread that acts under a name has a guard open for it
    every state is backed ↔ no guard gives back a name without an open guard
                                                               (throughout_backed_iff)
    if each disposal is of the newest guard then every state is backed
                                                                      (NewestFirst.backed)
    if no name is opened twice and no guard stays open, then only if   (newestFirst_of_backed)
-/

namespace CommandShell

/-- What is done with the guards of a thread. -/
inductive GuardMove where
  | opens (name : String)
  /-- One of the open guards is disposed of, counted from the newest. -/
  | disposes (depth : Nat)
  deriving DecidableEq

/-- The name that a move opens a session under. -/
def GuardMove.name? : GuardMove → Option String
  | opens name => some name
  | disposes _ => none

/-- A world, and the guards that a thread has open in it. -/
structure Guarded (th : Thread) where
  world : World
  /-- The newest comes first, each with the name that it was opened under. -/
  guards : List (String × World.Guard)
  mine : ∀ p ∈ guards, p.2.thread = th

theorem World.bound_bind (w : World) (th : Thread) (key : Option SessionKey) :
    Assoc.get? th (w.bind th key).bound = key := by
  cases key with
  | none => exact Assoc.get?_erase_self th w.bound
  | some key => exact Assoc.get?_put_self th key w.bound

namespace Guarded

variable {th : Thread} {s : Guarded th} {m : GuardMove} {moves : List GuardMove}
  {name left : String} {depth : Nat} {p q : String × World.Guard}

/-- A world in which a thread has no guards open. -/
def start (th : Thread) (w : World) : Guarded th := ⟨w, [], fun _ h => absurd h List.not_mem_nil⟩

/-- Does one move.  Nothing comes of disposing of a guard that there is not. -/
def step (s : Guarded th) : GuardMove → Guarded th
  | .opens name =>
    ⟨(s.world.openSession th name).2, (name, (s.world.openSession th name).1) :: s.guards,
      List.forall_mem_cons.2 ⟨rfl, s.mine⟩⟩
  | .disposes depth =>
    match s.guards[depth]? with
    | some p =>
      ⟨s.world.dispose p.2, s.guards.eraseIdx depth,
        fun q hq => s.mine q (List.mem_of_mem_eraseIdx hq)⟩
    | none => s

/-- Does some moves in turn. -/
def run (s : Guarded th) (moves : List GuardMove) : Guarded th := moves.foldl step s

/-- What the thread is bound to. -/
def bound? (s : Guarded th) : Option SessionKey := Assoc.get? th s.world.bound

/-- If the thread acts under a name then a guard is open for it. -/
def Backed (s : Guarded th) : Prop :=
  ∀ name, s.world.currentKey th = .named name → ∃ p ∈ s.guards, p.1 = name

/-- Disposing of a guard gives the thread no name back but one that a guard stays open for. -/
def GivesBack (s : Guarded th) (depth : Nat) : Prop :=
  ∀ p left, s.guards[depth]? = some p → p.2.previous = some (.named left) →
    ∃ q ∈ s.guards.eraseIdx depth, q.1 = left

/-- What holds before, between and after some moves. -/
def Throughout (P : Guarded th → Prop) (s : Guarded th) (moves : List GuardMove) : Prop :=
  ∀ before, before <+: moves → P (s.run before)

/-- What holds of every guard that is disposed of. -/
def OnDisposal (P : Guarded th → Nat → Prop) (s : Guarded th) (moves : List GuardMove) : Prop :=
  ∀ before depth, before ++ [.disposes depth] <+: moves →
    depth < (s.run before).guards.length → P (s.run before) depth

/-- Each guard is disposed of before those that are older. -/
def NewestFirst (s : Guarded th) (moves : List GuardMove) : Prop :=
  OnDisposal (fun _ depth => depth = 0) s moves

/-! ## One move -/

theorem run_cons (s : Guarded th) (m : GuardMove) (moves : List GuardMove) :
    s.run (m :: moves) = (s.step m).run moves := rfl

theorem bound_opens (s : Guarded th) (name : String) :
    (s.step (.opens name)).bound? = some (.named name) :=
  World.bound_bind _ th (some (.named name))

theorem step_disposes (h : s.guards[depth]? = some p) :
    (s.step (.disposes depth)).bound? = p.2.previous ∧
      (s.step (.disposes depth)).guards = s.guards.eraseIdx depth := by
  have hmine := s.mine p (List.mem_of_getElem? h)
  simp only [step, h, bound?, World.dispose, hmine]
  exact ⟨World.bound_bind _ th p.2.previous, trivial⟩

theorem step_of_no_guard (h : s.guards[depth]? = none) : s.step (.disposes depth) = s := by
  simp only [step, h]

theorem guards_disposes_sublist (s : Guarded th) (depth : Nat) :
    (s.step (.disposes depth)).guards.Sublist s.guards := by
  cases hp : s.guards[depth]? with
  | none => simp only [step_of_no_guard hp, List.Sublist.refl]
  | some p =>
    rw [(step_disposes hp).2]
    exact List.eraseIdx_sublist s.guards depth

theorem currentKey_eq_named_iff (s : Guarded th) (name : String) :
    s.world.currentKey th = .named name ↔ s.bound? = some (.named name) := by
  unfold World.currentKey bound?
  cases Assoc.get? th s.world.bound with
  | none => cases th <;> simp [Thread.ownKey]
  | some key => simp

theorem backed_of_unbound (h : s.bound? = none) : s.Backed := by
  intro name hname
  rw [currentKey_eq_named_iff, h] at hname
  cases hname

theorem backed_opens (s : Guarded th) (name : String) : (s.step (.opens name)).Backed := by
  intro other hother
  rw [currentKey_eq_named_iff, bound_opens] at hother
  obtain rfl := SessionKey.named.inj (Option.some.inj hother)
  exact ⟨_, List.mem_cons_self, rfl⟩

theorem backed_disposes_iff (h : s.guards[depth]? = some p) :
    (s.step (.disposes depth)).Backed ↔ s.GivesBack depth := by
  obtain ⟨hbound, hguards⟩ := step_disposes h
  unfold Backed GivesBack
  simp only [currentKey_eq_named_iff, hbound, hguards]
  constructor
  · intro hbacked q left hq hleft
    obtain rfl := Option.some.inj (h.symm.trans hq)
    exact hbacked left hleft
  · intro hgives left hleft
    exact hgives p left h hleft

/-! ## Any moves -/

theorem throughout_cons {P : Guarded th → Prop} :
    Throughout P s (m :: moves) ↔ P s ∧ Throughout P (s.step m) moves := by
  constructor
  · intro h
    exact ⟨h [] List.nil_prefix, fun before hbefore =>
      h (m :: before) (List.cons_prefix_cons.2 ⟨rfl, hbefore⟩)⟩
  · rintro ⟨hs, h⟩ before hbefore
    rcases List.prefix_cons_iff.1 hbefore with rfl | ⟨rest, rfl, hrest⟩
    · exact hs
    · exact h rest hrest

theorem throughout_nil {P : Guarded th → Prop} : Throughout P s [] ↔ P s := by
  constructor
  · intro h
    exact h [] List.nil_prefix
  · rintro h before hbefore
    rw [List.prefix_nil.1 hbefore]
    exact h

theorem onDisposal_nil (P : Guarded th → Nat → Prop) (s : Guarded th) : OnDisposal P s [] := by
  intro before depth h
  simp at h

theorem onDisposal_cons {P : Guarded th → Nat → Prop} :
    OnDisposal P s (m :: moves) ↔
      (∀ depth, m = .disposes depth → depth < s.guards.length → P s depth) ∧
        OnDisposal P (s.step m) moves := by
  constructor
  · intro h
    refine ⟨?_, fun before depth hbefore => ?_⟩
    · rintro depth rfl hdepth
      exact h [] depth (by simp) hdepth
    · exact h (m :: before) depth (List.cons_prefix_cons.2 ⟨rfl, hbefore⟩)
  · rintro ⟨hm, h⟩ before depth hbefore
    cases before with
    | nil =>
      obtain ⟨rfl, -⟩ := List.cons_prefix_cons.1 hbefore
      exact hm depth rfl
    | cons _ rest =>
      obtain ⟨rfl, hrest⟩ := List.cons_prefix_cons.1 hbefore
      exact h rest depth hrest

/-- Every state is backed exactly if no guard gives back a name that is no longer open. -/
theorem throughout_backed_iff (hs : s.Backed) :
    Throughout Backed s moves ↔ OnDisposal GivesBack s moves := by
  induction moves generalizing s with
  | nil => exact iff_of_true (throughout_nil.2 hs) (onDisposal_nil _ s)
  | cons m moves ih =>
    rw [throughout_cons, onDisposal_cons]
    cases m with
    | opens name =>
      rw [ih (backed_opens s name)]
      simp [hs]
    | disposes depth =>
      cases hp : s.guards[depth]? with
      | none =>
        have hlength := List.getElem?_eq_none_iff.1 hp
        rw [step_of_no_guard hp, ih hs]
        simp [hs, Nat.not_lt.2 hlength]
      | some p =>
        obtain ⟨hlength, -⟩ := List.getElem?_eq_some_iff.1 hp
        constructor
        · rintro ⟨-, h⟩
          have hnext := h [] List.nil_prefix
          refine ⟨?_, (ih hnext).1 h⟩
          rintro _ ⟨⟩ -
          exact (backed_disposes_iff hp).1 hnext
        · rintro ⟨hgives, h⟩
          exact ⟨hs, (ih ((backed_disposes_iff hp).2 (hgives depth rfl hlength))).2 h⟩

theorem run_concat (s : Guarded th) (moves : List GuardMove) (m : GuardMove) :
    s.run (moves ++ [m]) = (s.run moves).step m := by
  simp [run]

/-- What a guard gives back is what the thread was bound to when the guard was opened. -/
theorem exists_opening (w : World) (moves : List GuardMove) :
    ∀ p ∈ ((start th w).run moves).guards, ∃ before, before ++ [.opens p.1] <+: moves ∧
      p.2.previous = ((start th w).run before).bound? := by
  induction moves using List.reverseRecOn with
  | nil =>
    intro p hp
    cases hp
  | append_singleton moves m ih =>
    have hold : ∀ p ∈ ((start th w).run moves).guards, ∃ before,
        before ++ [.opens p.1] <+: moves ++ [m] ∧
          p.2.previous = ((start th w).run before).bound? := by
      intro p hp
      obtain ⟨before, hbefore, hprevious⟩ := ih p hp
      exact ⟨before, hbefore.trans (List.prefix_append moves [m]), hprevious⟩
    rw [run_concat]
    cases m with
    | opens name => exact List.forall_mem_cons.2 ⟨⟨moves, List.prefix_rfl, rfl⟩, hold⟩
    | disposes depth =>
      intro p hp
      exact hold p ((guards_disposes_sublist _ depth).subset hp)

/-! ## The newest first -/

/-- Each guard would give back the name of the next older one, and the oldest nothing. -/
def Stacked : Option SessionKey → List (String × World.Guard) → Prop
  | key, [] => key = none
  | key, (name, g) :: guards => key = some (.named name) ∧ Stacked g.previous guards

theorem Stacked.backed (h : Stacked s.bound? s.guards) : s.Backed := by
  intro name hname
  rw [currentKey_eq_named_iff] at hname
  cases hguards : s.guards with
  | nil =>
    rw [hguards, hname] at h
    cases h
  | cons p guards =>
    rw [hguards, hname] at h
    exact ⟨p, List.mem_cons_self, (SessionKey.named.inj (Option.some.inj h.1)).symm⟩

theorem Stacked.opens (h : Stacked s.bound? s.guards) (name : String) :
    Stacked (s.step (.opens name)).bound? (s.step (.opens name)).guards :=
  ⟨bound_opens s name, h⟩

theorem Stacked.disposes (h : Stacked s.bound? s.guards)
    (hnewest : depth < s.guards.length → depth = 0) :
    Stacked (s.step (.disposes depth)).bound? (s.step (.disposes depth)).guards := by
  cases hp : s.guards[depth]? with
  | none =>
    rw [step_of_no_guard hp]
    exact h
  | some p =>
    obtain rfl := hnewest (List.getElem?_eq_some_iff.1 hp).1
    obtain ⟨hbound, hguards⟩ := step_disposes hp
    rw [hbound, hguards]
    cases hlist : s.guards with
    | nil =>
      rw [hlist] at hp
      cases hp
    | cons q guards =>
      rw [hlist] at hp h
      obtain rfl := Option.some.inj hp
      exact h.2

/-- If the newest guards go first then the guards are a stack throughout. -/
theorem NewestFirst.stacked (hs : Stacked s.bound? s.guards) (h : NewestFirst s moves) :
    Throughout (fun s => Stacked s.bound? s.guards) s moves := by
  induction moves generalizing s with
  | nil => exact throughout_nil.2 hs
  | cons m moves ih =>
    obtain ⟨hm, hrest⟩ := onDisposal_cons.1 h
    refine throughout_cons.2 ⟨hs, ih ?_ hrest⟩
    cases m with
    | opens name => exact hs.opens name
    | disposes depth => exact hs.disposes (hm depth rfl)

theorem NewestFirst.backed (hs : Stacked s.bound? s.guards) (h : NewestFirst s moves) :
    Throughout Backed s moves :=
  fun before hbefore => Stacked.backed (h.stacked hs before hbefore)

/-! ## Any other order -/

/-- In a stack a guard gives back the name of the next older one. -/
theorem Stacked.previous {key : Option SessionKey} {guards : List (String × World.Guard)}
    (h : Stacked key guards) (hp : guards[depth]? = some p) (hq : guards[depth + 1]? = some q) :
    p.2.previous = some (.named q.1) := by
  induction guards generalizing key depth with
  | nil => cases hp
  | cons r guards ih =>
    cases depth with
    | succ depth => exact ih h.2 hp hq
    | zero =>
      obtain rfl := Option.some.inj hp
      cases guards with
      | nil => cases hq
      | cons _ guards =>
        obtain rfl := Option.some.inj hq
        exact h.2.1

/-- A guard that would give back a name that is gone for good cannot go without harm. -/
theorem not_backed_of_gone (hp : p ∈ s.guards) (hprevious : p.2.previous = some (.named left))
    (hgone : ∀ q ∈ s.guards, q.1 ≠ left) (hnever : left ∉ moves.filterMap GuardMove.name?)
    (hend : (s.run moves).guards = []) : ¬ Throughout Backed s moves := by
  induction moves generalizing s with
  | nil =>
    have hnil : s.guards = [] := hend
    rw [hnil] at hp
    cases hp
  | cons m moves ih =>
    rw [throughout_cons, not_and]
    intro _ hbacked
    rw [run_cons] at hend
    cases m with
    | opens name =>
      have hne : name ≠ left ∧ left ∉ moves.filterMap GuardMove.name? := by
        simpa [GuardMove.name?, eq_comm] using hnever
      refine ih (List.mem_cons_of_mem _ hp) ?_ hne.2 hend hbacked
      exact List.forall_mem_cons.2 ⟨hne.1, hgone⟩
    | disposes depth =>
      cases hr : s.guards[depth]? with
      | none =>
        rw [step_of_no_guard hr] at hend hbacked
        exact ih hp hgone hnever hend hbacked
      | some r =>
        obtain ⟨-, hguards⟩ := step_disposes hr
        have hstays : ∀ q ∈ (s.step (.disposes depth)).guards, q.1 ≠ left := by
          intro q hq
          rw [hguards] at hq
          exact hgone q (List.mem_of_mem_eraseIdx hq)
        by_cases hsame : r = p
        · subst hsame
          have hgives := (backed_disposes_iff hr).1 (hbacked [] List.nil_prefix)
          obtain ⟨q, hq, hleft⟩ := hgives r left hr hprevious
          exact hstays q (by rw [hguards]; exact hq) hleft
        · refine ih ?_ hstays hnever hend hbacked
          obtain ⟨i, hi⟩ := List.mem_iff_getElem?.1 hp
          rw [hguards, List.mem_eraseIdx_iff_getElem?]
          refine ⟨i, ?_, hi⟩
          rintro rfl
          exact hsame (Option.some.inj (hr.symm.trans hi))

/-- Of guards with distinct names only one has the name of the one that goes. -/
theorem ne_of_mem_eraseIdx {guards : List (String × World.Guard)}
    (hnames : (guards.map Prod.fst).Nodup) (hq : guards[depth]? = some q) :
    ∀ r ∈ guards.eraseIdx depth, r.1 ≠ q.1 := by
  intro r hr hname
  obtain ⟨i, hi, hget⟩ := List.mem_eraseIdx_iff_getElem?.1 hr
  have hlength : i < (guards.map Prod.fst).length := by
    rw [List.length_map]
    exact (List.getElem?_eq_some_iff.1 hget).1
  refine hi ((List.getElem?_inj hlength hnames).1 ?_)
  rw [List.getElem?_map, List.getElem?_map, hget, hq, Option.map_some, Option.map_some, hname]

/-- If every name is opened once and no guard stays open, no order is harmless but one. -/
theorem newestFirst_of_backed (hs : Stacked s.bound? s.guards)
    (hnames : (s.guards.map Prod.fst ++ moves.filterMap GuardMove.name?).Nodup)
    (hend : (s.run moves).guards = []) (h : Throughout Backed s moves) : NewestFirst s moves := by
  induction moves generalizing s with
  | nil => exact onDisposal_nil _ s
  | cons m moves ih =>
    rw [run_cons] at hend
    have hnext := (throughout_cons.1 h).2
    refine onDisposal_cons.2 ?_
    cases m with
    | opens name =>
      refine ⟨by simp, ih (hs.opens name) ?_ hend hnext⟩
      exact List.perm_middle.nodup_iff.1 hnames
    | disposes depth =>
      have hnewest : depth < s.guards.length → depth = 0 := by
        intro hlength
        by_contra hdepth
        obtain ⟨older, rfl⟩ := Nat.exists_eq_succ_of_ne_zero hdepth
        -- The next newer guard would give back the name of the one that goes.
        obtain ⟨p, hp⟩ : ∃ p, s.guards[older]? = some p :=
          ⟨_, List.getElem?_eq_getElem (Nat.lt_of_succ_lt hlength)⟩
        obtain ⟨q, hq⟩ : ∃ q, s.guards[older + 1]? = some q :=
          ⟨_, List.getElem?_eq_getElem hlength⟩
        obtain ⟨-, hguards⟩ := step_disposes hq
        obtain ⟨hheld, -, happart⟩ := List.nodup_append.1 hnames
        refine not_backed_of_gone (p := p) ?_ (hs.previous hp hq) ?_ ?_ hend hnext
        · rw [hguards, List.mem_eraseIdx_iff_getElem?]
          exact ⟨older, by omega, hp⟩
        · rw [hguards]
          exact ne_of_mem_eraseIdx hheld hq
        · intro hlater
          exact happart q.1 (List.mem_map_of_mem (List.mem_of_getElem? hq)) q.1 hlater rfl
      refine ⟨?_, ih (hs.disposes hnewest) ?_ hend hnext⟩
      · rintro _ ⟨⟩
        exact hnewest
      · exact hnames.sublist (((guards_disposes_sublist s depth).map _).append_right _)

/-! ## Back to the thread itself -/

/-- The thread is bound to names only, and so are the guards to give back. -/
structure ByName (s : Guarded th) : Prop where
  bound : ∀ key, s.bound? = some key → ∃ name, key = .named name
  previous : ∀ p ∈ s.guards, ∀ key, p.2.previous = some key → ∃ name, key = .named name

theorem ByName.step (h : s.ByName) (m : GuardMove) : (s.step m).ByName := by
  cases m with
  | opens name =>
    refine ⟨fun key hkey => ?_, List.forall_mem_cons.2 ⟨h.bound, h.previous⟩⟩
    rw [bound_opens] at hkey
    exact ⟨name, (Option.some.inj hkey).symm⟩
  | disposes depth =>
    cases hp : s.guards[depth]? with
    | none =>
      rw [step_of_no_guard hp]
      exact h
    | some p =>
      obtain ⟨hbound, hguards⟩ := step_disposes hp
      refine ⟨fun key hkey => ?_, fun q hq => ?_⟩
      · rw [hbound] at hkey
        exact h.previous p (List.mem_of_getElem? hp) key hkey
      · rw [hguards] at hq
        exact h.previous q (List.mem_of_mem_eraseIdx hq)

theorem ByName.throughout (h : s.ByName) : Throughout ByName s moves := by
  induction moves generalizing s with
  | nil => exact throughout_nil.2 h
  | cons m moves ih => exact throughout_cons.2 ⟨h, ih (h.step m)⟩

/-- A thread without guards is backed exactly if it acts for itself. -/
theorem ByName.backed_iff (h : s.ByName) (hguards : s.guards = []) :
    s.Backed ↔ s.world.currentKey th = th.ownKey := by
  constructor
  · intro hbacked
    cases hbound : s.bound? with
    | none =>
      have hfree : Assoc.get? th s.world.bound = none := hbound
      rw [World.currentKey, hfree, Option.getD_none]
    | some key =>
      obtain ⟨name, rfl⟩ := h.bound key hbound
      obtain ⟨p, hp, -⟩ := hbacked name ((currentKey_eq_named_iff s name).2 hbound)
      rw [hguards] at hp
      cases hp
  · intro hown name hname
    rw [hown] at hname
    cases th <;> cases hname

/-- **A thread acts under a name without a guard for it exactly if a guard gave that name back.**
Whatever sessions a thread opens by name and in whatever order it disposes of them, if it was not
bound at first then it acts throughout only under names that it has a guard open for if and only if
no guard that is disposed of gives back a name that no guard is left for; what a guard gives back is
what the thread was bound to when it was opened.  When no guard is open that says that the thread
acts for itself.  It is so if the newest guard always goes first, and if no name is opened twice and
no guard is left open, then only if. -/
theorem guards_back_thread_iff (th : Thread) (w : World) (hfree : Assoc.get? th w.bound = none)
    (moves : List GuardMove) :
    let s := start th w
    (Throughout Backed s moves ↔ OnDisposal GivesBack s moves) ∧
      (∀ p ∈ (s.run moves).guards, ∃ before, before ++ [.opens p.1] <+: moves ∧
        p.2.previous = (s.run before).bound?) ∧
      Throughout (fun s => s.guards = [] → (s.Backed ↔ s.world.currentKey th = th.ownKey)) s
        moves ∧
      (NewestFirst s moves → Throughout Backed s moves) ∧
      ((moves.filterMap GuardMove.name?).Nodup → (s.run moves).guards = [] →
        (Throughout Backed s moves ↔ NewestFirst s moves)) := by
  intro s
  have hstacked : Stacked s.bound? s.guards := hfree
  have hnamed : s.ByName := by
    refine ⟨fun key hkey => ?_, fun p hp => absurd hp List.not_mem_nil⟩
    rw [show s.bound? = none from hfree] at hkey
    cases hkey
  refine ⟨throughout_backed_iff (backed_of_unbound hfree), exists_opening w moves, ?_,
    NewestFirst.backed hstacked, ?_⟩
  · intro before hbefore hguards
    exact (hnamed.throughout before hbefore).backed_iff hguards
  · intro hnames hend
    exact ⟨newestFirst_of_backed hstacked hnames hend, NewestFirst.backed hstacked⟩

theorem two_sessions_unwind :
    let th : Thread := .caller 0
    let w := World.initial .default 0 1
    let moves : List GuardMove := [.opens "a", .opens "b", .disposes 0, .disposes 0]
    Assoc.get? th w.bound = none ∧ NewestFirst (start th w) moves ∧
      Throughout Backed (start th w) moves ∧ ((start th w).run moves).guards = [] ∧
      ((start th w).run moves).world.currentKey th = th.ownKey := by
  intro th w moves
  have hfree : Assoc.get? th w.bound = none := rfl
  have hnewest : NewestFirst (start th w) moves := by
    intro before depth hbefore _
    have hmem : .disposes depth ∈ moves := hbefore.subset (by simp)
    simpa [moves] using hmem
  obtain ⟨-, -, hempty, hbacked, -⟩ := guards_back_thread_iff th w hfree moves
  have hend : ((start th w).run moves).guards = [] := rfl
  refine ⟨hfree, hnewest, hbacked hnewest, hend, ?_⟩
  exact (hempty moves List.prefix_rfl hend).1 (hbacked hnewest moves List.prefix_rfl)

/-- A thread that disposes of the older of two guards first acts under the older name for good. -/
theorem disposed_name_stays_bound :
    let th : Thread := .caller 0
    let w := World.initial .default 0 1
    let moves : List GuardMove := [.opens "a", .opens "b", .disposes 1, .disposes 0]
    Assoc.get? th w.bound = none ∧ ((start th w).run moves).guards = [] ∧
      ((start th w).run moves).world.currentKey th = .named "a" ∧
      ¬ Throughout Backed (start th w) moves := by
  intro th w moves
  have hkey : ((start th w).run moves).world.currentKey th = .named "a" := rfl
  refine ⟨rfl, rfl, hkey, fun h => ?_⟩
  obtain ⟨p, hp, -⟩ := h moves List.prefix_rfl "a" hkey
  cases hp

end Guarded

end CommandShell
