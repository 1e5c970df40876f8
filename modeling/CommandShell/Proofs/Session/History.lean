import CommandShell.Session.Basic
/-!
# The history of a session

Whatever is pushed onto a history and however often it is reset: it holds the last of the records
since the last reset, in their order, as many as its limit allows.

    pushed edits                      the records since the last reset
    Retains limit records history     the history is the end of the records
    every edit keeps this                                              (Retains.apply)
-/

namespace CommandShell

/-- What changes the history of a session. -/
inductive HistoryEdit where
  | push (r : Record)
  | reset

namespace HistoryEdit

def apply : HistoryEdit → Session → Session
  | push r, s => s.push r
  | reset, s => s.reset

/-- The records since the last reset, with one edit more. -/
def extend (records : List Record) : HistoryEdit → List Record
  | push r => records ++ [r]
  | reset => []

end HistoryEdit

/-- The records that were pushed since the last reset, in order. -/
def pushed (edits : List HistoryEdit) : List Record := edits.foldl HistoryEdit.extend []

theorem pushed_concat (edits : List HistoryEdit) (e : HistoryEdit) :
    pushed (edits ++ [e]) = e.extend (pushed edits) := by
  rw [pushed, List.foldl_append]
  rfl

/-- The history is the end of the records: as many as the limit allows, or all of them. -/
structure Retains (limit : Nat) (records history : List Record) : Prop where
  suffix : history <:+ records
  length : history.length = min limit records.length

variable {limit : Nat} {records history : List Record} {s : Session}

theorem Retains.eq_drop (h : Retains limit records history) :
    history = records.drop (records.length - limit) := by
  have hlength := h.length
  rw [List.suffix_iff_eq_drop.1 h.suffix]
  congr 1
  omega

theorem retains_nil (limit : Nat) : Retains limit [] [] :=
  ⟨List.suffix_refl [], (Nat.min_zero limit).symm⟩

theorem Retains.push (h : Retains limit records history) (r : Record) :
    Retains limit (records ++ [r])
      ((history ++ [r]).drop ((history ++ [r]).length - limit)) where
  suffix := by
    obtain ⟨older, rfl⟩ := h.suffix
    have hconcat : history ++ [r] <:+ older ++ history ++ [r] := by
      rw [List.append_assoc]
      exact List.suffix_append older _
    exact (List.drop_suffix _ _).trans hconcat
  length := by
    have hlength := h.length
    rw [List.length_drop, List.length_append, List.length_append, List.length_singleton]
    omega

/-- A push and a reset keep a history what it is, under a limit that stays what it is. -/
theorem Retains.apply (h : Retains limit records s.history) (hlimit : s.historyLimit = limit)
    (e : HistoryEdit) :
    Retains limit (e.extend records) (e.apply s).history ∧ (e.apply s).historyLimit = limit := by
  cases e with
  | push r =>
    subst hlimit
    exact ⟨h.push r, rfl⟩
  | reset => exact ⟨retains_nil limit, hlimit⟩

end CommandShell
