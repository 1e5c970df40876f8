import CommandShell.Task.Index
import Mathlib.Data.List.Induction
import Mathlib.Data.List.Nodup
/-!
# Tasks on the index

A ledger says of a run what it should come to: which names were opened in turn, which of the tasks
are completed, and which no clearing has taken off.  The index agrees with it: a task that is
kept is live if it is the newest of its name, and retired if it is not.

    Agrees x l                     the tasks, and what is live and retired, fit the ledger
    every operation keeps it, so every run does                 (agrees_apply, agrees_run)
    what is listed, found, numbered and cleared in a run
                                                        (handles_live_or_retired)
-/

namespace CommandShell.TaskIndex

/-! ## Numbering from one -/

section

variable {α β : Type}

/-- The element of a number; the first has number one. -/
def nth? (xs : List α) (g : Nat) : Option α := if g = 0 then none else xs[g - 1]?

theorem nth?_map (f : α → β) (xs : List α) (g : Nat) :
    nth? (xs.map f) g = (nth? xs g).map f := by
  unfold nth?
  split
  · rfl
  · exact List.getElem?_map

theorem isSome_nth?_iff (xs : List α) (g : Nat) :
    (nth? xs g).isSome = true ↔ 0 < g ∧ g ≤ xs.length := by
  unfold nth?
  split
  · next h => simp [h]
  · next h =>
    rw [Option.isSome_iff_ne_none, Ne, List.getElem?_eq_none_iff]
    omega

theorem nth?_concat (xs : List α) (a : α) (g : Nat) :
    nth? (xs ++ [a]) g = if g = xs.length + 1 then some a else nth? xs g := by
  unfold nth?
  by_cases hzero : g = 0
  · simp [hzero]
  · rw [if_neg hzero, if_neg hzero]
    split
    · next hlast => simp [hlast]
    · next hlast =>
      rcases Nat.lt_or_gt_of_ne hlast with hlt | hgt
      · exact List.getElem?_append_left (by omega)
      · rw [List.getElem?_eq_none, List.getElem?_eq_none]
        · omega
        · rw [List.length_append, List.length_singleton]
          omega

end

/-! ## Runs -/

/-- What is done to an index. -/
inductive Op where
  | submit (name line : String) (outputLimit : Nat) (now : Timestamp)
  | print (generation : Nat) (text : String)
  | complete (generation : Nat) (record : Record) (now : Timestamp)
  | clear (onlyDone : Bool)

def apply (x : TaskIndex) : Op → TaskIndex
  | .submit name line outputLimit now => (x.submit name line outputLimit now).2
  | .print generation text => x.print generation text
  | .complete generation record now => x.complete generation record now
  | .clear onlyDone => (x.clear onlyDone).2

/-- A new index after a run. -/
def run (ops : List Op) : TaskIndex := ops.foldl apply empty

/-- The generation that an operation gives out. -/
def givenBy (x : TaskIndex) : Op → List Nat
  | .submit name line outputLimit now => [(x.submit name line outputLimit now).1]
  | _ => []

/-- The generations that a run gives out, in order. -/
def given (x : TaskIndex) : List Op → List Nat
  | [] => []
  | op :: ops => x.givenBy op ++ given (x.apply op) ops

/-- What a run should come to. -/
structure Ledger where
  /-- The names of the tasks in the order in which they were opened. -/
  opened : List String
  /-- The numbers of completed tasks. -/
  done : List Nat
  /-- The numbers of the tasks that no clearing has taken off. -/
  kept : List Nat

namespace Ledger

def empty : Ledger := ⟨[], [], []⟩

/-- The name of the task of a number. -/
def name? (l : Ledger) (g : Nat) : Option String := nth? l.opened g

/-- Whether a clearing takes the task of a number off. -/
def clears (l : Ledger) (onlyDone : Bool) (g : Nat) : Bool := !onlyDone || decide (g ∈ l.done)

def record (l : Ledger) : Op → Ledger
  | .submit name _ _ _ =>
    { l with opened := l.opened ++ [name], kept := l.kept ++ [l.opened.length + 1] }
  | .print _ _ => l
  | .complete g _ _ => if (l.name? g).isSome then { l with done := g :: l.done } else l
  | .clear onlyDone => { l with kept := l.kept.filter fun g => !l.clears onlyDone g }

/-- The ledger of a run. -/
def ofRun (ops : List Op) : Ledger := ops.foldl record empty

/-- Whether no task of the same name was opened after the task of a number. -/
def Newest (l : Ledger) (g : Nat) : Prop := ∀ h, l.name? h = l.name? g → h ≤ g

end Ledger

/-! ## Agreement of an index with a ledger -/

/-- The index is what the ledger says. -/
structure Agrees (x : TaskIndex) (l : Ledger) : Prop where
  names : x.tasks.map Task.name = l.opened
  numbered : ∀ g t, x.task? g = some t → t.generation = g
  done : ∀ g, x.isDone g = true ↔ g ∈ l.done
  opened : ∀ g ∈ l.kept, (l.name? g).isSome
  kept : l.kept.Nodup
  ascending : x.live.Pairwise (· < ·)
  live : ∀ g, g ∈ x.live ↔ g ∈ l.kept ∧ l.Newest g
  older : x.retired.Pairwise fun g h => l.name? g = l.name? h → g < h
  retired : ∀ g, g ∈ x.retired ↔ g ∈ l.kept ∧ ¬ l.Newest g

variable {x : TaskIndex} {l : Ledger} {g h : Nat} {name : String} {f : Task → Task}

theorem agrees_empty : Agrees empty .empty where
  names := rfl
  numbered g t ht := by simp [task?, empty] at ht
  done g := by simp [isDone, task?, empty, Ledger.empty]
  opened g hg := absurd hg List.not_mem_nil
  kept := List.nodup_nil
  ascending := .nil
  live g := by simp [empty, Ledger.empty]
  older := .nil
  retired g := by simp [empty, Ledger.empty]

namespace Agrees

theorem length (ha : Agrees x l) : x.tasks.length = l.opened.length := by
  rw [← ha.names, List.length_map]

theorem name? (ha : Agrees x l) (g : Nat) : (x.task? g).map Task.name = l.name? g := by
  rw [Ledger.name?, ← ha.names, nth?_map]
  rfl

theorem isNamed_iff (ha : Agrees x l) : x.isNamed name g = true ↔ l.name? g = some name := by
  rw [isNamed, ← ha.name? g]
  cases x.task? g <;> simp

end Agrees

/-! ## Changing a task -/

theorem task?_modify (x : TaskIndex) (n g : Nat) (f : Task → Task) :
    (x.modify n f).task? g = if n = g then (x.task? g).map f else x.task? g := by
  unfold modify task?
  by_cases hg : g = 0
  · subst hg
    by_cases hn : n = 0 <;> simp [hn]
  · by_cases hn : n = 0
    · simp [hn, Ne.symm hg]
    · have hiff : n - 1 = g - 1 ↔ n = g := by omega
      simp only [hn, hg, if_false, List.getElem?_modify, hiff]
      split <;> simp

theorem names_modify (hname : ∀ t, (f t).name = t.name) (x : TaskIndex) (n : Nat) :
    (x.modify n f).tasks.map Task.name = x.tasks.map Task.name := by
  unfold modify
  split
  · rfl
  · refine List.ext_getElem? fun k => ?_
    simp only [List.getElem?_map, List.getElem?_modify]
    split
    · cases x.tasks[k]? <;> simp [hname]
    · simp

theorem live_modify (x : TaskIndex) (n : Nat) (f : Task → Task) :
    (x.modify n f).live = x.live ∧ (x.modify n f).retired = x.retired := by
  unfold modify
  split <;> exact ⟨rfl, rfl⟩

/-- Changing a task, but not its name or its number, concerns the ledger only by completions. -/
theorem Agrees.modify {done : List Nat} (ha : Agrees x l) (n : Nat)
    (hname : ∀ t, (f t).name = t.name) (hnumber : ∀ t, (f t).generation = t.generation)
    (hdone : ∀ g, (x.modify n f).isDone g = true ↔ g ∈ done) :
    Agrees (x.modify n f) { l with done := done } := by
  obtain ⟨hlive, hretired⟩ := live_modify x n f
  refine ⟨(names_modify hname x n).trans ha.names, fun g t ht => ?_, hdone, ha.opened, ha.kept,
    ?_, ?_, ?_, ?_⟩
  · rw [task?_modify] at ht
    split at ht
    · obtain ⟨u, hu, rfl⟩ := Option.map_eq_some_iff.1 ht
      exact (hnumber u).trans (ha.numbered g u hu)
    · exact ha.numbered g t ht
  · rw [hlive]
    exact ha.ascending
  · rw [hlive]
    exact ha.live
  · rw [hretired]
    exact ha.older
  · rw [hretired]
    exact ha.retired

theorem Task.isDone_complete (t : Task) (r : Record) (now : Timestamp) :
    (t.complete r now).isDone = true := by
  unfold Task.complete
  split
  · assumption
  · rfl

theorem agrees_print (ha : Agrees x l) (n : Nat) (text : String) : Agrees (x.print n text) l := by
  refine ha.modify n (fun _ => rfl) (fun _ => rfl) fun g => ?_
  rw [← ha.done, isDone, isDone, task?_modify]
  split
  · cases x.task? g <;> rfl
  · rfl

theorem agrees_complete (ha : Agrees x l) (n : Nat) (r : Record) (now : Timestamp) :
    Agrees (x.complete n r now) (l.record (.complete n r now)) := by
  have hname (t : Task) : (t.complete r now).name = t.name := by
    unfold Task.complete
    split <;> rfl
  have hnumber (t : Task) : (t.complete r now).generation = t.generation := by
    unfold Task.complete
    split <;> rfl
  have hsome : (x.task? n).isSome = (l.name? n).isSome := by
    rw [← ha.name? n, Option.isSome_map]
  have hdone (g : Nat) : (x.complete n r now).isDone g = true ↔
      g ∈ if (l.name? n).isSome then n :: l.done else l.done := by
    rw [isDone, complete, task?_modify, ← hsome]
    by_cases hg : n = g
    · subst hg
      cases ht : x.task? n with
      | none => simp [← ha.done, isDone, ht]
      | some t => simp [Task.isDone_complete]
    · rw [if_neg hg]
      split <;> simp [← ha.done, isDone, Ne.symm hg]
  have hagrees := ha.modify n hname hnumber hdone
  rw [Ledger.record]
  split
  · next h =>
    rw [if_pos h] at hagrees
    exact hagrees
  · next h =>
    rw [if_neg h] at hagrees
    exact hagrees

/-! ## Opening a task -/

theorem task?_submit (x : TaskIndex) (line : String) (limit : Nat) (now : Timestamp) (g : Nat) :
    (x.submit name line limit now).2.task? g =
      if g = x.tasks.length + 1 then some ⟨name, x.tasks.length + 1, line, now, .empty limit, none⟩
      else x.task? g :=
  nth?_concat x.tasks _ g

namespace Ledger

variable (line : String) (limit : Nat) (now : Timestamp)

theorem name?_submit (l : Ledger) (g : Nat) : (l.record (.submit name line limit now)).name? g =
    if g = l.opened.length + 1 then some name else l.name? g :=
  nth?_concat l.opened name g

theorem name?_next (l : Ledger) : l.name? (l.opened.length + 1) = none :=
  Option.not_isSome_iff_eq_none.1 fun h => by
    have := ((isSome_nth?_iff l.opened _).1 h).2
    omega

/-- A task stays the newest of its name if the name of the new one is another. -/
theorem newest_submit_iff (hg : (l.name? g).isSome) :
    (l.record (.submit name line limit now)).Newest g ↔ l.Newest g ∧ l.name? g ≠ some name := by
  have hle := ((isSome_nth?_iff l.opened g).1 hg).2
  have hne : g ≠ l.opened.length + 1 := by omega
  unfold Newest
  simp only [name?_submit, if_neg hne]
  constructor
  · intro hnew
    refine ⟨fun h hh => ?_, fun hname => ?_⟩
    · refine hnew h ?_
      split
      · next hlast =>
        rw [← hh, hlast, name?_next] at hg
        cases hg
      · exact hh
    · have := hnew (l.opened.length + 1) (by rw [if_pos rfl, hname])
      omega
  · rintro ⟨hnew, hname⟩ h hh
    split at hh
    · exact absurd hh.symm hname
    · exact hnew h hh

theorem newest_submit_last :
    (l.record (.submit name line limit now)).Newest (l.opened.length + 1) := by
  intro h hh
  rw [name?_submit, name?_submit, if_pos rfl] at hh
  split at hh
  · next hlast => exact Nat.le_of_eq hlast
  · have hsome : (l.name? h).isSome := by rw [hh]; rfl
    exact Nat.le_succ_of_le ((isSome_nth?_iff l.opened h).1 hsome).2

end Ledger

theorem agrees_submit (ha : Agrees x l) (name line : String) (limit : Nat) (now : Timestamp) :
    Agrees (x.submit name line limit now).2 (l.record (.submit name line limit now)) := by
  have hlength := ha.length
  -- What was opened before has another number than the new task, so it keeps its name.
  have hne {g : Nat} (hg : (l.name? g).isSome) : g ≠ l.opened.length + 1 := by
    have := ((isSome_nth?_iff l.opened g).1 hg).2
    omega
  have hold {g : Nat} (hg : (l.name? g).isSome) :
      (l.record (.submit name line limit now)).name? g = l.name? g := by
    rw [Ledger.name?_submit, if_neg (hne hg)]
  have hlive {g : Nat} (hg : g ∈ x.live) : (l.name? g).isSome :=
    ha.opened g ((ha.live g).1 hg).1
  have hretired {g : Nat} (hg : g ∈ x.retired) : (l.name? g).isSome :=
    ha.opened g ((ha.retired g).1 hg).1
  have hnewest {g : Nat} (hg : g ∈ l.kept) :
      (l.record (.submit name line limit now)).Newest g ↔
        l.Newest g ∧ x.isNamed name g = false := by
    rw [Ledger.newest_submit_iff line limit now (ha.opened g hg), ← Bool.not_eq_true, Ne,
      ha.isNamed_iff]
  have hlast : (l.record (.submit name line limit now)).Newest (l.opened.length + 1) :=
    Ledger.newest_submit_last line limit now
  refine ⟨?_, fun g t ht => ?_, fun g => ?_, fun g hg => ?_, ?_, ?_, fun g => ?_, ?_, fun g => ?_⟩
  · rw [submit, Ledger.record, List.map_append, ha.names]
    rfl
  · rw [task?_submit] at ht
    split at ht
    · next hg =>
      obtain rfl := Option.some.inj ht
      exact hg.symm
    · exact ha.numbered g t ht
  · rw [isDone, task?_submit]
    split
    · next hg =>
      have hnone : x.task? g = none := by
        rw [← Option.map_eq_none_iff, ha.name?, hg, hlength, Ledger.name?_next]
      have hdone : g ∉ l.done := by
        rw [← ha.done, isDone, hnone]
        exact Bool.false_ne_true
      exact iff_of_false Bool.false_ne_true hdone
    · exact ha.done g
  · rcases List.mem_append.1 hg with hg | hg
    · rw [hold (ha.opened g hg)]
      exact ha.opened g hg
    · rw [List.mem_singleton.1 hg, Ledger.name?_submit, if_pos rfl]
      rfl
  · refine List.nodup_append.2 ⟨ha.kept, List.nodup_singleton _, fun g hg h hh => ?_⟩
    rw [List.mem_singleton.1 hh]
    exact hne (ha.opened g hg)
  · refine List.pairwise_append.2 ⟨ha.ascending.filter _, List.pairwise_singleton _ _, ?_⟩
    intro g hg h hh
    have := ((isSome_nth?_iff l.opened g).1 (hlive (List.mem_filter.1 hg).1)).2
    rw [List.mem_singleton.1 hh]
    omega
  · simp only [submit, Ledger.record, List.mem_append, List.mem_filter, List.mem_singleton,
      Bool.not_eq_true', hlength, ha.live]
    constructor
    · rintro (⟨⟨hkept, hnew⟩, hname⟩ | rfl)
      · exact ⟨Or.inl hkept, (hnewest hkept).2 ⟨hnew, hname⟩⟩
      · exact ⟨Or.inr rfl, hlast⟩
    · rintro ⟨hkept | rfl, hnew⟩
      · obtain ⟨hnew, hname⟩ := (hnewest hkept).1 hnew
        exact Or.inl ⟨⟨hkept, hnew⟩, hname⟩
      · exact Or.inr rfl
  · refine List.pairwise_append.2 ⟨?_, ?_, ?_⟩
    · refine ha.older.imp_of_mem fun hg hh hlt hname => hlt ?_
      rwa [hold (hretired hg), hold (hretired hh)] at hname
    · refine List.Pairwise.imp ?_ (ha.ascending.filter _)
      intro g h hlt _
      exact hlt
    · intro g hg h hh hname
      have hh := (List.mem_filter.1 hh).1
      rw [hold (hretired hg), hold (hlive hh)] at hname
      refine Nat.lt_of_le_of_ne (((ha.live h).1 hh).2 g hname) ?_
      rintro rfl
      exact ((ha.retired g).1 hg).2 ((ha.live g).1 hh).2
  · simp only [submit, Ledger.record, List.mem_append, List.mem_filter, List.mem_singleton,
      ha.retired, ha.live]
    constructor
    · rintro (⟨hkept, hold⟩ | ⟨⟨hkept, -⟩, hname⟩)
      · exact ⟨Or.inl hkept, fun hnew => hold ((hnewest hkept).1 hnew).1⟩
      · refine ⟨Or.inl hkept, fun hnew => ?_⟩
        rw [((hnewest hkept).1 hnew).2] at hname
        cases hname
    · rintro ⟨hkept | rfl, hold⟩
      · by_cases hnew : l.Newest g
        · cases hname : x.isNamed name g with
          | true => exact Or.inr ⟨⟨hkept, hnew⟩, rfl⟩
          | false => exact absurd ((hnewest hkept).2 ⟨hnew, hname⟩) hold
        · exact Or.inl ⟨hkept, hnew⟩
      · exact absurd hlast hold

/-! ## Clearing -/

theorem agrees_clear (ha : Agrees x l) (onlyDone : Bool) :
    Agrees (x.clear onlyDone).2 (l.record (.clear onlyDone)) := by
  have hkeep (g : Nat) : (onlyDone && !x.isDone g) = !l.clears onlyDone g := by
    rw [Ledger.clears, Bool.not_or, Bool.not_not]
    congr 2
    rw [Bool.eq_iff_iff, ha.done, decide_eq_true_iff]
  have hmem (g : Nat) (gs : List Nat) : g ∈ gs.filter (fun g => onlyDone && !x.isDone g) ↔
      g ∈ gs ∧ l.clears onlyDone g = false := by
    rw [List.mem_filter, hkeep, Bool.not_eq_true']
  refine ⟨ha.names, ha.numbered, ha.done, fun g hg => ?_, ha.kept.filter _, ha.ascending.filter _,
    fun g => ?_, ha.older.filter _, fun g => ?_⟩
  · exact ha.opened g (List.mem_filter.1 hg).1
  · rw [clear, hmem, ha.live, Ledger.record, List.mem_filter, Bool.not_eq_true', and_right_comm]
    rfl
  · rw [clear, hmem, ha.retired, Ledger.record, List.mem_filter, Bool.not_eq_true', and_right_comm]
    rfl

theorem agrees_apply (ha : Agrees x l) (op : Op) : Agrees (x.apply op) (l.record op) := by
  cases op with
  | submit name line limit now => exact agrees_submit ha name line limit now
  | print n text => exact agrees_print ha n text
  | complete n r now => exact agrees_complete ha n r now
  | clear onlyDone => exact agrees_clear ha onlyDone

/-- After every run the index is what the ledger says. -/
theorem agrees_run (ops : List Op) : Agrees (run ops) (.ofRun ops) := by
  induction ops using List.reverseRecOn with
  | nil => exact agrees_empty
  | append_singleton ops op ih =>
    rw [run, Ledger.ofRun, List.foldl_concat, List.foldl_concat]
    exact agrees_apply ih op

/-! ## What a run gives out -/

theorem length_tasks_apply (x : TaskIndex) (op : Op) :
    (x.apply op).tasks.length = x.tasks.length + (x.givenBy op).length := by
  cases op with
  | submit name line limit now => exact List.length_append
  | print n text =>
    simp only [apply, print, modify]
    split <;> simp [givenBy]
  | complete n r now =>
    simp only [apply, complete, modify]
    split <;> simp [givenBy]
  | clear onlyDone => rfl

/-- The numbers follow one another, from the one behind the last task. -/
theorem given_eq_range' (x : TaskIndex) (ops : List Op) :
    x.given ops = List.range' (x.tasks.length + 1) (x.given ops).length := by
  induction ops generalizing x with
  | nil => rfl
  | cons op ops ih =>
    rw [given, ih (x.apply op), length_tasks_apply]
    cases op with
    | submit name line limit now =>
      simp only [givenBy, submit, List.singleton_append, List.length_cons, List.length_nil,
        List.length_range', List.range'_succ]
    | print n text => simp only [givenBy, List.nil_append, List.length_nil, List.length_range',
        Nat.add_zero]
    | complete n r now => simp only [givenBy, List.nil_append, List.length_nil,
        List.length_range', Nat.add_zero]
    | clear onlyDone => simp only [givenBy, List.nil_append, List.length_nil, List.length_range',
        Nat.add_zero]

/-! ## What is found and listed -/

namespace Agrees

theorem exists_task (ha : Agrees x l) (hg : g ∈ l.kept) :
    ∃ t, x.task? g = some t ∧ t.generation = g := by
  have hsome := ha.opened g hg
  rw [← ha.name? g, Option.isSome_map] at hsome
  obtain ⟨t, ht⟩ := Option.isSome_iff_exists.1 hsome
  exact ⟨t, ht, ha.numbered g t ht⟩

/-- The tasks of kept numbers have those numbers. -/
theorem generations (ha : Agrees x l) {gs : List Nat} (hgs : ∀ g ∈ gs, g ∈ l.kept) :
    (gs.filterMap x.task?).map Task.generation = gs := by
  induction gs with
  | nil => rfl
  | cons g gs ih =>
    obtain ⟨t, ht, hnumber⟩ := ha.exists_task (hgs g List.mem_cons_self)
    rw [List.filterMap_cons_some ht, List.map_cons, hnumber,
      ih fun h hh => hgs h (List.mem_cons_of_mem _ hh)]

theorem generations_live (ha : Agrees x l) : x.liveTasks.map Task.generation = x.live :=
  ha.generations fun g hg => ((ha.live g).1 hg).1

theorem generations_retired (ha : Agrees x l) : x.retiredTasks.map Task.generation = x.retired :=
  ha.generations fun g hg => ((ha.retired g).1 hg).1

theorem name_of_mem (ha : Agrees x l) {t : Task} {gs : List Nat} (h : t ∈ gs.filterMap x.task?) :
    t.generation ∈ gs ∧ l.name? t.generation = some t.name := by
  obtain ⟨g, hg, ht⟩ := List.mem_filterMap.1 h
  have hnumber := ha.numbered g t ht
  refine ⟨by rwa [hnumber], ?_⟩
  rw [hnumber, ← ha.name? g, ht]
  rfl

/-- Live tasks of one name have one number: the newest. -/
theorem eq_of_name (ha : Agrees x l) (hg : g ∈ x.live) (hh : h ∈ x.live)
    (hname : l.name? g = l.name? h) : g = h :=
  Nat.le_antisymm (((ha.live h).1 hh).2 g hname) (((ha.live g).1 hg).2 h hname.symm)

/-- A look-up finds the live task of the name. -/
theorem get?_eq_some_iff (ha : Agrees x l) (name : String) (t : Task) :
    x.get? name = some t ↔ t ∈ x.liveTasks ∧ t.name = name := by
  have hfound (g : Nat) : x.liveGeneration? name = some g ↔
      g ∈ x.live ∧ l.name? g = some name := by
    rw [liveGeneration?, ← ha.isNamed_iff]
    constructor
    · intro h
      exact ⟨List.mem_of_find?_eq_some h, List.find?_some h⟩
    · rintro ⟨hg, hname⟩
      obtain ⟨h, hh⟩ := Option.isSome_iff_exists.1 (List.find?_isSome.2 ⟨g, hg, hname⟩)
      have hnameh := ha.isNamed_iff.1 (List.find?_some hh)
      rw [hh, ha.eq_of_name (List.mem_of_find?_eq_some hh) hg
        (hnameh.trans (ha.isNamed_iff.1 hname).symm)]
  rw [get?, Option.bind_eq_some_iff, liveTasks, List.mem_filterMap]
  constructor
  · rintro ⟨g, hg, ht⟩
    obtain ⟨hlive, hname⟩ := (hfound g).1 hg
    rw [← ha.name? g, ht] at hname
    exact ⟨⟨g, hlive, ht⟩, Option.some.inj hname⟩
  · rintro ⟨⟨g, hlive, ht⟩, rfl⟩
    refine ⟨g, (hfound g).2 ⟨hlive, ?_⟩, ht⟩
    rw [← ha.name? g, ht]
    rfl

theorem names_nodup (ha : Agrees x l) : (x.liveTasks.map Task.name).Nodup := by
  have hgenerations : (x.liveTasks.map Task.generation).Nodup := by
    rw [ha.generations_live]
    exact ha.ascending.imp Nat.ne_of_lt
  refine List.pairwise_map.2 ((List.pairwise_map.1 hgenerations).imp_of_mem ?_)
  intro t u ht hu hne hname
  obtain ⟨htlive, htname⟩ := ha.name_of_mem ht
  obtain ⟨hulive, huname⟩ := ha.name_of_mem hu
  exact hne (ha.eq_of_name htlive hulive (by rw [htname, huname, hname]))

theorem retiredNamed_ascending (ha : Agrees x l) (name : String) :
    ((x.retiredNamed name).map Task.generation).Pairwise (· < ·) := by
  have hall : x.retiredTasks.Pairwise fun t u =>
      l.name? t.generation = l.name? u.generation → t.generation < u.generation := by
    have := ha.older
    rw [← ha.generations_retired] at this
    exact List.pairwise_map.1 this
  refine List.pairwise_map.2 ((hall.filter _).imp_of_mem ?_)
  intro t u ht hu hlt
  obtain ⟨ht, htname⟩ := List.mem_filter.1 ht
  obtain ⟨hu, huname⟩ := List.mem_filter.1 hu
  refine hlt ?_
  rw [(ha.name_of_mem ht).2, (ha.name_of_mem hu).2, of_decide_eq_true htname,
    of_decide_eq_true huname]

/-- A retired task is older than the live one of its name. -/
theorem retired_lt_live (ha : Agrees x l) {t u : Task} (ht : t ∈ x.retiredNamed name)
    (hu : x.get? name = some u) : t.generation < u.generation := by
  obtain ⟨ht, htname⟩ := List.mem_filter.1 ht
  obtain ⟨hu, huname⟩ := (ha.get?_eq_some_iff name u).1 hu
  obtain ⟨htretired, ht⟩ := ha.name_of_mem ht
  obtain ⟨hulive, hu⟩ := ha.name_of_mem hu
  have hname : l.name? t.generation = l.name? u.generation := by
    rw [ht, hu, of_decide_eq_true htname, huname]
  refine Nat.lt_of_le_of_ne (((ha.live _).1 hulive).2 _ hname) fun heq => ?_
  rw [heq] at htretired
  exact ((ha.retired _).1 htretired).2 ((ha.live _).1 hulive).2

theorem nodup (ha : Agrees x l) : (x.live ++ x.retired).Nodup := by
  refine List.nodup_append.2 ⟨ha.ascending.imp Nat.ne_of_lt, ?_, ?_⟩
  · refine ha.older.imp ?_
    rintro g h hlt rfl
    exact Nat.lt_irrefl g (hlt rfl)
  · rintro g hg h hh rfl
    exact ((ha.retired g).1 hh).2 ((ha.live g).1 hg).2

/-- What is on the index is what is kept. -/
theorem perm (ha : Agrees x l) : (x.live ++ x.retired).Perm l.kept := by
  refine (List.perm_ext_iff_of_nodup ha.nodup ha.kept).2 fun g => ?_
  rw [List.mem_append, ha.live, ha.retired, ← and_or_left]
  exact and_iff_left (Classical.em _)

theorem count (ha : Agrees x l) : x.count = l.kept.length := by
  rw [← ha.perm.length_eq, List.length_append]
  rfl

/-- Clearing counts what it takes off. -/
theorem cleared (ha : Agrees x l) (onlyDone : Bool) :
    (x.clear onlyDone).1 = (l.kept.filter (l.clears onlyDone)).length := by
  have hafter := (agrees_clear ha onlyDone).count
  have hall := List.length_eq_length_filter_add (l := l.kept) (l.clears onlyDone)
  rw [Ledger.record] at hafter
  dsimp only at hafter
  have hcount : (x.clear onlyDone).1 = x.count - (x.clear onlyDone).2.count := rfl
  rw [hcount, hafter, ha.count]
  omega

end Agrees

/-- **Every task that was opened is live or retired until it is cleared away.**  In every run no
number is given out twice; there is one live task of a name at most, found under that name;
listings show the live tasks by ascending number and the retired ones behind them; the retired
tasks of a name ascend and are older than the live one; what no clearing has taken off is on the
index once, live if it is the newest of its name and else retired; a clearing takes the completed
tasks off, or all, and counts them. -/
theorem handles_live_or_retired (ops : List Op) :
    let x := run ops
    let l := Ledger.ofRun ops
    ((x.liveTasks.map Task.name).Nodup ∧
      ∀ name t, x.get? name = some t ↔ t ∈ x.liveTasks ∧ t.name = name) ∧
    (∀ now, ∃ live retired, x.list now = live ++ retired ∧
      (∀ row ∈ live, row.live = true) ∧ (∀ row ∈ retired, row.live = false) ∧
      live.map TaskSummary.generation = x.live ∧ x.live.Pairwise (· < ·) ∧
      retired.map TaskSummary.generation = x.retired) ∧
    (∀ name, ((x.retiredNamed name).map Task.generation).Pairwise (· < ·) ∧
      ∀ t ∈ x.retiredNamed name, ∀ u, x.get? name = some u → t.generation < u.generation) ∧
    (empty.given ops).Pairwise (· < ·) ∧
    (x.live ++ x.retired).Perm l.kept ∧ l.kept.Nodup ∧
    (∀ g, (g ∈ x.live ↔ g ∈ l.kept ∧ l.Newest g) ∧ (g ∈ x.retired ↔ g ∈ l.kept ∧ ¬ l.Newest g)) ∧
    (∀ g, x.isDone g = true ↔ g ∈ l.done) ∧
    ∀ onlyDone, (x.clear onlyDone).1 = (l.kept.filter (l.clears onlyDone)).length ∧
      ((x.clear onlyDone).2.live ++ (x.clear onlyDone).2.retired).Perm
        (l.kept.filter fun g => !l.clears onlyDone g) := by
  have ha := agrees_run ops
  refine ⟨⟨ha.names_nodup, ha.get?_eq_some_iff⟩, fun now => ?_, fun name => ?_, ?_, ha.perm,
    ha.kept, fun g => ⟨ha.live g, ha.retired g⟩, ha.done, fun onlyDone => ?_⟩
  · refine ⟨_, _, rfl, ?_, ?_, ?_, ha.ascending, ?_⟩
    · intro row hrow
      obtain ⟨t, -, rfl⟩ := List.mem_map.1 hrow
      rfl
    · intro row hrow
      obtain ⟨t, -, rfl⟩ := List.mem_map.1 hrow
      rfl
    · rw [List.map_map]
      exact ha.generations_live
    · rw [List.map_map]
      exact ha.generations_retired
  · exact ⟨ha.retiredNamed_ascending name, fun t ht u hu => ha.retired_lt_live ht hu⟩
  · rw [given_eq_range']
    exact List.pairwise_lt_range'
  · exact ⟨ha.cleared onlyDone, (agrees_clear ha onlyDone).perm⟩

end CommandShell.TaskIndex
