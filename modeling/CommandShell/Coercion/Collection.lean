import CommandShell.Coercion.Error
import CommandShell.Literal.Item
import CommandShell.Value.Basic
/-!
# Collection literals

A collection literal is its kind of bracket and its items.  Which collection it becomes depends
on the type that is asked for and not on the bracket: `values`, `distinctValues` and `entries`
read any literal as a list, a set and a map.  In a curly literal the items of a list are the
values of its entries.

    distinctValues = values less later duplicates                  (distinctValues)
    readEach read as = .ok bs ↔ as.map read = bs.map .ok           (readEach_eq_ok_iff)
-/

namespace CommandShell

open CommandShell.Literal

/-- Reads every item, up to the first that fails. -/
def readEach {α β ε : Type} (read : α → Except ε β) : List α → Except ε (List β)
  | [] => .ok []
  | a :: rest =>
    match read a with
    | .error e => .error e
    | .ok b =>
      match readEach read rest with
      | .error e => .error e
      | .ok bs => .ok (b :: bs)

theorem except_map_eq_ok {α β ε : Type} {f : α → β} {x : Except ε α} {b : β} (h : x.map f = .ok b) :
    ∃ a, x = .ok a ∧ f a = b := by
  cases x with
  | error e => cases h
  | ok a => exact ⟨a, rfl, Except.ok.inj h⟩

theorem readEach_eq_ok_iff {α β ε : Type} (read : α → Except ε β) (as : List α) (bs : List β) :
    readEach read as = .ok bs ↔ as.map read = bs.map .ok := by
  induction as generalizing bs with
  | nil =>
    cases bs with
    | nil => simp [readEach]
    | cons b bs => simp [readEach]
  | cons a as ih =>
    cases ha : read a with
    | error e =>
      cases bs with
      | nil => simp [readEach, ha]
      | cons b bs => simp [readEach, ha]
    | ok b =>
      have hrest : readEach read (a :: as) =
          (readEach read as).map (b :: ·) := by
        rw [readEach, ha]
        cases readEach read as <;> rfl
      rw [hrest]
      cases bs with
      | nil => cases readEach read as <;> simp [Except.map]
      | cons c cs =>
        rw [List.map_cons, List.map_cons, ha, List.cons.injEq, ← ih cs]
        cases readEach read as <;> simp [Except.map]

structure Collection where
  bracket : Bracket
  items : List String
  deriving DecidableEq

namespace Collection

/-- The literal with this text between its brackets. -/
def ofInner (bracket : Bracket) (inner : List Char) : Collection :=
  ⟨bracket, (Literal.items inner).map String.ofList⟩

/-- The bracket that a literal of the type has when it is written without one. -/
def impliedBracket : ValueType → Bracket
  | .set _ => .round
  | .map _ => .curly
  | _ => .square

/-- The literal that a text is, with or without its brackets. -/
def ofText (text : String) (type : ValueType) : Collection :=
  match unwrap text.toList with
  | some (bracket, inner) => ofInner bracket inner
  | none => ofInner (impliedBracket type) text.toList

/-- What an item contributes to a list: in a curly literal the value of its entry. -/
def elementText (bracket : Bracket) (item : String) : String :=
  match bracket with
  | .curly =>
    match entry? item.toList with
    | some (_, value) => String.ofList value
    | none => item
  | _ => item

/-- The items as values of a list. -/
def values (c : Collection) (read : String → Except CoercionError Value) :
    Except CoercionError (List Value) :=
  readEach read (c.items.map (elementText c.bracket))

/-- The items as values of a set: of equal values the first. -/
def distinctValues (c : Collection) (read : String → Except CoercionError Value) :
    Except CoercionError (List Value) :=
  (c.values read).map Value.distinct

/-- Reads an item as an entry of a map. -/
def readEntry (read : String → Except CoercionError Value) (item : String) :
    Except CoercionError (String × Value) :=
  match entry? item.toList with
  | none => .error (.invalid "key:value entry" item)
  | some (key, value) =>
    match read (String.ofList value) with
    | .error e => .error e
    | .ok v => .ok (String.ofList key, v)

/-- The items as entries of a map; a repeated key keeps its first place and its last value. -/
def entries (c : Collection) (read : String → Except CoercionError Value) :
    Except CoercionError (List (String × Value)) :=
  (readEach (readEntry read) c.items).map Assoc.ofPairs

end Collection

end CommandShell
