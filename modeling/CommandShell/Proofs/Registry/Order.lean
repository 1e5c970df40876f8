import CommandShell.Registry.Running
import Mathlib.Data.List.Sort
/-!
# The order in which handlers run

Filters and the handlers of the start and of the stop run by ascending priority, and those of
equal priority in the order of registration.  Handlers of the stop all run, whatever becomes of
those before them.

    ByPriority es ran            ran is es in that order
    the entries of a kind run by priority                                (ordered_byPriority)
    every handler of the stop runs, and its failure is kept                  (stopAll_eq)
-/

namespace CommandShell

/-- The failure of a handler of the stop, if it fails. -/
def Entry.stopFailure? (e : Entry) : Option LifecycleFailure :=
  match e.handler with
  | .stop (.error cause) => some ⟨e.name, cause⟩
  | _ => none

namespace Registry

variable {r : Registry} {kind : EntryKind} {es ran : List Entry}

/-- The same entries by ascending priority, those of equal priority in the order they had. -/
structure ByPriority (es ran : List Entry) : Prop where
  perm : ran.Perm es
  ascending : ran.Pairwise fun e f => e.priority ≤ f.priority
  ties : ∀ p, (ran.filter fun e => e.priority = p) = es.filter fun e => e.priority = p

theorem insertByPriority_eq (e : Entry) (es : List Entry) :
    insertByPriority e es = es.orderedInsert (fun e f => e.priority ≤ f.priority) e := by
  induction es with
  | nil => rfl
  | cons f es ih => rw [insertByPriority, ih, List.orderedInsert]

theorem sortByPriority_eq (es : List Entry) :
    sortByPriority es = es.insertionSort fun e f => e.priority ≤ f.priority := by
  induction es with
  | nil => rfl
  | cons e es ih => rw [sortByPriority, ih, insertByPriority_eq, List.insertionSort_cons]

theorem ordered_sortByPriority (es : List Entry) : ByPriority es (sortByPriority es) := by
  have htotal : Std.Total fun e f : Entry => e.priority ≤ f.priority := ⟨fun e f => le_total _ _⟩
  have htrans : IsTrans Entry fun e f => e.priority ≤ f.priority := ⟨fun _ _ _ => le_trans⟩
  rw [sortByPriority_eq]
  refine ⟨List.perm_insertionSort _ es, List.pairwise_insertionSort _ es, fun p => ?_⟩
  -- The entries of one priority are in order as they stand, so sorting keeps them in place.
  have hsame : (es.filter fun e => e.priority = p).Pairwise fun e f => e.priority ≤ f.priority := by
    refine List.pairwise_of_forall_mem_list fun e he f hf => ?_
    have hep := of_decide_eq_true (List.mem_filter.1 he).2
    have hfp := of_decide_eq_true (List.mem_filter.1 hf).2
    exact le_of_eq (hep.trans hfp.symm)
  have hsub := (List.sublist_insertionSort hsame List.filter_sublist).filter fun e => e.priority = p
  rw [List.filter_filter] at hsub
  simp only [Bool.and_self] at hsub
  exact (hsub.eq_of_length_le
    ((List.perm_insertionSort _ es).filter _).length_eq.le).symm

/-- The entries of a kind run by priority. -/
theorem ordered_byPriority (r : Registry) (kind : EntryKind) :
    ByPriority (r.entries.filter fun e => e.kind = kind) (r.byPriority kind) :=
  ordered_sortByPriority _

theorem kind_of_mem_byPriority {e : Entry} (h : e ∈ r.byPriority kind) : e.kind = kind :=
  of_decide_eq_true (List.mem_filter.1 ((ordered_byPriority r kind).perm.mem_iff.1 h)).2

/-! ## Handlers of the stop -/

theorem stopChain_cons {e : Entry} (he : e.kind = .stop) (es : List Entry) :
    stopChain (e :: es) =
      (.stopped e.name :: (stopChain es).1, e.stopFailure?.toList ++ (stopChain es).2) := by
  unfold Entry.kind at he
  rw [stopChain, Entry.stopFailure?]
  cases hhandler : e.handler with
  | stop result => cases result <;> rfl
  | command | filter | start =>
    rw [hhandler] at he
    cases he

theorem stopChain_eq (h : ∀ e ∈ es, e.kind = .stop) :
    stopChain es = (es.map fun e => .stopped e.name, es.filterMap Entry.stopFailure?) := by
  induction es with
  | nil => rfl
  | cons e es ih =>
    rw [stopChain_cons (h e List.mem_cons_self), ih fun f hf => h f (List.mem_cons_of_mem _ hf)]
    cases hfailure : e.stopFailure? with
    | none => rw [List.filterMap_cons_none hfailure]; rfl
    | some f => rw [List.filterMap_cons_some hfailure]; rfl

/-- Every handler of the stop runs, and those that fail are kept in the order in which they
ran. -/
theorem stopAll_eq (r : Registry) :
    r.stopAll = ((r.byPriority .stop).map fun e => .stopped e.name,
      (r.byPriority .stop).filterMap Entry.stopFailure?) :=
  stopChain_eq fun _ he => kind_of_mem_byPriority he

end Registry

end CommandShell
