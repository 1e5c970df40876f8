import CommandShell.Record.Basic
import Mathlib.Data.List.Forall2
/-!
# What a query shows of a history

A query asks for the records of one command, or of all, for so many of them, and for some of their
fields.  Its answer has one row for each of the newest records that it may have, newest first, and
every row is an object with the fields that were asked for and no others.

    r.field? name              what a record has under a name
    q.Shows r row              the row is the record as the query wants it
    q.Answer history rows      the rows show the newest of the wanted records
    the run of a query is its one answer                                           (answer_iff)
-/

namespace CommandShell

open CommandShell.Assoc

namespace Record

variable (r : Record)

/-- What a record has under a name. -/
def field? : String → Option Json
  | "command" => some (.string r.command)
  | "raw_args" => some (.string r.rawArgs)
  | "started_at" => some (.string r.startedAt.text)
  | "elapsed_ms" => some (Json.ofNat r.elapsed)
  | "success" => some (.bool r.success)
  | "result" => some r.result
  | "failure" => some (failureJson r.failure?)
  | _ => none

theorem get?_toJson (name : String) : r.toJson.get? name = r.field? name := by
  rw [toJson, Json.object, Json.get?, get?_sorted]
  unfold field?
  split <;> simp_all [get?, eq_comm]

end Record

namespace HistoryQuery

variable {q : HistoryQuery} {r : Record} {history : List Record}

/-- What the query wants to see of a record under a name: all that the record has if it names no
field, and else something under every name that it names, and nothing under others. -/
def field? (q : HistoryQuery) (r : Record) (name : String) : Option Json :=
  if q.fields = [] then r.field? name
  else if name ∈ q.fields then some ((r.field? name).getD .null)
  else none

/-- The row is the record as the query wants it: an object with these fields, each of them once. -/
def Shows (q : HistoryQuery) (r : Record) (row : Json) : Prop :=
  ∃ named, row = .fields named ∧ (keys named).Pairwise (· < ·) ∧
    ∀ name, get? name named = q.field? r name

/-- The rows show, newest first, the newest records that the query wants, and no more of them than
it may have.  The history is oldest first. -/
def Answer (q : HistoryQuery) (history : List Record) (rows : List Json) : Prop :=
  ∃ wanted chosen : List Record,
    wanted = history.filter (fun r => q.command = none ∨ q.command = some r.command) ∧
    chosen <:+ wanted ∧
    chosen.length = (match q.limit with
      | none => wanted.length
      | some n => min n wanted.length) ∧
    List.Forall₂ q.Shows chosen.reverse rows

theorem shows_project (q : HistoryQuery) (r : Record) : q.Shows r (q.project r) := by
  unfold project
  cases hfields : q.fields with
  | nil =>
    refine ⟨_, rfl, pairwise_keys_sorted _, fun name => ?_⟩
    rw [field?, if_pos hfields]
    exact r.get?_toJson name
  | cons first rest =>
    refine ⟨_, rfl, pairwise_keys_sorted _, fun name => ?_⟩
    rw [field?, if_neg (by simp [hfields]), hfields, get?_sorted, ← List.map_reverse,
      get?_map_pair, r.get?_toJson]
    simp only [List.mem_reverse]

/-- A record is shown in one way only. -/
theorem shows_iff {row : Json} : q.Shows r row ↔ row = q.project r := by
  constructor
  · rintro ⟨named, rfl, hkeys, hnamed⟩
    obtain ⟨projected, hproject, hkeys', hprojected⟩ := shows_project q r
    rw [hproject, eq_of_get? hkeys hkeys' fun name => (hnamed name).trans (hprojected name).symm]
  · rintro rfl
    exact shows_project q r

theorem forall₂_shows_iff {chosen : List Record} {rows : List Json} :
    List.Forall₂ q.Shows chosen rows ↔ rows = chosen.map q.project := by
  induction chosen generalizing rows with
  | nil => rw [List.forall₂_nil_left_iff, List.map_nil]
  | cons r chosen ih =>
    rw [List.forall₂_cons_left_iff, List.map_cons]
    constructor
    · rintro ⟨row, rest, hrow, hrest, rfl⟩
      rw [shows_iff.1 hrow, ih.1 hrest]
    · rintro rfl
      exact ⟨_, _, shows_iff.2 rfl, ih.2 rfl, rfl⟩

theorem wants_iff : q.wants r = true ↔ q.command = none ∨ q.command = some r.command := by
  unfold wants
  cases q.command <;> simp [eq_comm]

/-- The records that a query shows, oldest first: the end of those that it wants. -/
theorem run_eq (q : HistoryQuery) (history : List Record) :
    ∃ chosen, chosen <:+ history.filter q.wants ∧
      chosen.length = (match q.limit with
        | none => (history.filter q.wants).length
        | some n => min n (history.filter q.wants).length) ∧
      q.run history = chosen.reverse.map q.project := by
  unfold run
  cases q.limit with
  | none =>
    refine ⟨_, List.suffix_refl _, rfl, ?_⟩
    rw [List.filter_reverse]
  | some n =>
    -- the first of the reversed list are the last of the list
    refine ⟨_, List.drop_suffix ((history.filter q.wants).length - n) _, ?_, ?_⟩
    · rw [List.length_drop]
      dsimp only
      omega
    · dsimp only
      rw [List.filter_reverse, List.take_reverse]

/-- A query has one answer, which is what its run gives. -/
theorem answer_iff {rows : List Json} : q.Answer history rows ↔ rows = q.run history := by
  have hwanted : history.filter (fun r => q.command = none ∨ q.command = some r.command) =
      history.filter q.wants :=
    List.filter_congr fun r _ => by rw [Bool.eq_iff_iff, wants_iff, decide_eq_true_iff]
  obtain ⟨chosen, hsuffix, hlength, hrun⟩ := run_eq q history
  unfold Answer
  rw [hwanted, hrun]
  constructor
  · rintro ⟨wanted, other, rfl, hsuffix', hlength', hrows⟩
    have hsame : other = chosen := by
      rw [← hlength] at hlength'
      exact (List.suffix_of_suffix_length_le hsuffix' hsuffix
        (Nat.le_of_eq hlength')).eq_of_length hlength'
    rw [forall₂_shows_iff.1 hrows, hsame]
  · intro hrows
    exact ⟨_, chosen, rfl, hsuffix, hlength, forall₂_shows_iff.2 hrows⟩

end HistoryQuery

end CommandShell
