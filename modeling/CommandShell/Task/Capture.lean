import CommandShell.Text.Blank
/-!
# Captured output

What a background task prints is kept as lines.  At most `limit` complete lines are kept, at
least one; older ones are dropped and counted.  Text behind the last line break is pending until
a break or the end of the task completes it.

    write text = its characters put one after the other                    (write_eq_foldl)
    write (a ++ b) = write b after write a                                 (write_append)
    lines = the last complete lines and the pending text, if there is any
-/

namespace CommandShell

structure Capture where
  limit : Nat
  /-- Complete lines, oldest first. -/
  complete : List String
  /-- The characters since the last line break, last first. -/
  pending : List Char
  dropped : Nat
  deriving DecidableEq

namespace Capture

/-- Nothing captured; a limit of zero is raised to one. -/
def empty (limit : Nat) : Capture := ⟨max limit 1, [], [], 0⟩

/-- The pending text as a line, if there is any. -/
def pendingLine (c : Capture) : List String :=
  if c.pending.isEmpty then [] else [String.ofList c.pending.reverse]

/-- Completes a line, dropping the oldest one if there is no room. -/
def push (c : Capture) (line : String) : Capture :=
  if c.complete.length < c.limit then { c with complete := c.complete ++ [line] }
  else { c with complete := c.complete.drop 1 ++ [line], dropped := c.dropped + 1 }

/-- Completes the pending text as a line, with the rest of that line behind it. -/
def endLine (c : Capture) (rest : List Char) : Capture :=
  { c.push (String.ofList (c.pending.reverse ++ rest)) with pending := [] }

/-- Captures the segments of a text, of which each but the last ends with a line break. -/
def writeSegments (c : Capture) : List (List Char) → Capture
  | [] => c
  | [last] => { c with pending := last.reverse ++ c.pending }
  | segment :: next :: rest => (c.endLine segment).writeSegments (next :: rest)

/-- Captures a text. -/
def write (c : Capture) (text : String) : Capture := c.writeSegments (text.toList.splitOn '\n')

/-- Completes the pending text as a line. -/
def finish (c : Capture) : Capture :=
  if c.pending.isEmpty then c
  else { c.push (String.ofList c.pending.reverse) with pending := [] }

/-- The lines that are kept, with the pending text as the last. -/
def lines (c : Capture) : List String := c.complete ++ c.pendingLine

/-- The last `n` lines. -/
def tail (c : Capture) (n : Nat) : List String := c.lines.drop (c.lines.length - n)

def lineCount (c : Capture) : Nat := c.complete.length + if c.pending.isEmpty then 0 else 1

/-! ## One character after the other -/

/-- Captures one character. -/
def put (c : Capture) (ch : Char) : Capture :=
  if ch = '\n' then { c.push (String.ofList c.pending.reverse) with pending := [] }
  else { c with pending := ch :: c.pending }

theorem put_break (c : Capture) : c.put '\n' = c.endLine [] := by simp [put, endLine]

theorem endLine_cons (c : Capture) {ch : Char} (hch : ch ≠ '\n') (rest : List Char) :
    c.endLine (ch :: rest) = (c.put ch).endLine rest := by
  have hline : (ch :: c.pending).reverse ++ rest = c.pending.reverse ++ ch :: rest := by simp
  rw [put, if_neg hch, endLine, endLine, hline]
  unfold push
  dsimp only
  split <;> rfl

/-- A character that begins a segment is captured first. -/
theorem writeSegments_cons (c : Capture) {ch : Char} (hch : ch ≠ '\n') (segment : List Char)
    (rest : List (List Char)) :
    c.writeSegments ((ch :: segment) :: rest) = (c.put ch).writeSegments (segment :: rest) := by
  cases rest with
  | nil => simp [writeSegments, put, hch]
  | cons next rest => rw [writeSegments, endLine_cons c hch, writeSegments]

/-- **Writing a text segment by segment is writing it character by character.** -/
theorem write_eq_foldl (c : Capture) (text : String) : c.write text = text.toList.foldl put c := by
  rw [write]
  induction text.toList generalizing c with
  | nil => rfl
  | cons ch text ih =>
    obtain ⟨segment, rest, hsplit⟩ := List.exists_cons_of_ne_nil (List.splitOn_ne_nil '\n' text)
    have hcons : (ch :: text).splitOn '\n' =
        if ch = '\n' then [] :: text.splitOn '\n' else (ch :: segment) :: rest := by
      rw [List.splitOn, List.splitOnP_cons_eq_if_modifyHead, ← List.splitOn, hsplit]
      simp only [beq_iff_eq, List.modifyHead_cons]
    rw [List.foldl_cons, ← ih, hcons]
    by_cases hch : ch = '\n'
    · rw [if_pos hch, hch, put_break, hsplit, writeSegments]
    · rw [if_neg hch, writeSegments_cons c hch, hsplit]

@[simp] theorem write_empty (c : Capture) : c.write "" = c := rfl

theorem write_append (c : Capture) (s t : String) :
    c.write (s ++ t) = (c.write s).write t := by
  simp [write_eq_foldl]

theorem lineCount_eq_length_lines (c : Capture) : c.lineCount = c.lines.length := by
  unfold lineCount lines pendingLine
  split <;> simp

end Capture

end CommandShell
