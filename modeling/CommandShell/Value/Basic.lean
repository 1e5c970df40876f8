import CommandShell.Json.Basic
import CommandShell.Value.Type
/-!
# Values

What a command is called with.  Equality of values is `Value.beq`: lists and sets by order, maps
whatever their order, floats as IEEE numbers, consoles by where they write, ambient handles by
identity.

    of two values of distinct items, the earlier is not equal to the later      (pairwise_distinct)
-/

namespace CommandShell

/-- Where printed text goes: the terminal, or the captured output of the background task of that
session and generation. -/
inductive Console where
  | terminal
  | capture (session generation : Nat)
  deriving DecidableEq

/-- What an ambient handle holds. -/
inductive AmbientContent where
  | text (s : String)
  | number (n : Int64)
  deriving DecidableEq

/-- A handle supplied by the surroundings; two handles are the same if their identities are. -/
structure Ambient where
  identity : Nat
  content : AmbientContent
  deriving DecidableEq

inductive Value where
  | null
  | bool (b : Bool)
  | int (n : Int64)
  | float (x : Float)
  | char (c : Char)
  | str (s : String)
  | list (items : List Value)
  | set (items : List Value)
  | map (entries : List (String × Value))
  | object (v : Json)
  | console (c : Console)
  | ambient (a : Ambient)

namespace Value

instance : Inhabited Value := ⟨null⟩

/-- The kind of a value, as messages name it. -/
def kind : Value → String
  | null => "null"
  | bool _ => "bool"
  | int _ => "int"
  | float _ => "float"
  | char _ => "char"
  | str _ => "string"
  | list _ => "list"
  | set _ => "set"
  | map _ => "map"
  | object _ => "object"
  | console _ => "console"
  | ambient _ => "ambient"

def isNull : Value → Bool
  | null => true
  | _ => false

def bool? : Value → Option Bool
  | bool b => some b
  | _ => none

def int? : Value → Option Int64
  | int n => some n
  | _ => none

/-- The number of a float or an int. -/
def float? : Value → Option Float
  | float x => some x
  | int n => some n.toFloat
  | _ => none

def str? : Value → Option String
  | str s => some s
  | _ => none

/-- The elements of a list or a set. -/
def items? : Value → Option (List Value)
  | list items => some items
  | set items => some items
  | _ => none

def map? : Value → Option (List (String × Value))
  | map entries => some entries
  | _ => none

def console? : Value → Option Console
  | console c => some c
  | _ => none

/-- What a parameter holds if nothing is said about it. -/
def zero : ValueType → Value
  | .bool => bool false
  | .int => int 0
  | .float => float 0
  | .char => char '\x00'
  | _ => null

mutual

/-- The JSON value of a value; handles have none. -/
def toJson : Value → Json
  | null => .null
  | bool b => .bool b
  | int n => .integer n.toInt
  | float x => Json.ofFloat x
  | char c => .string (String.ofList [c])
  | str s => .string s
  | list items => .array (itemsToJson items)
  | set items => .array (itemsToJson items)
  | map entries => Json.object (entriesToJson entries)
  | object v => v
  | console _ => .null
  | ambient _ => .null

def itemsToJson : List Value → List Json
  | [] => []
  | v :: rest => toJson v :: itemsToJson rest

def entriesToJson : List (String × Value) → List (String × Json)
  | [] => []
  | (k, v) :: rest => (k, toJson v) :: entriesToJson rest

end

mutual

/-- Equality of values. -/
def beq : Value → Value → Bool
  | null, null => true
  | bool a, bool b => a = b
  | int a, int b => a = b
  | float a, float b => a == b
  | char a, char b => a = b
  | str a, str b => a = b
  | list as, list bs => beqItems as bs
  | set as, set bs => beqItems as bs
  | map as, map bs => as.length = bs.length && beqEntries as bs
  | object a, object b => Json.beq a b
  | console a, console b => a = b
  | ambient a, ambient b => a.identity = b.identity
  | _, _ => false

def beqItems : List Value → List Value → Bool
  | [], [] => true
  | a :: as, b :: bs => beq a b && beqItems as bs
  | _, _ => false

/-- Whether every entry has an equal value under its key in the other map. -/
def beqEntries : List (String × Value) → List (String × Value) → Bool
  | [], _ => true
  | (k, a) :: as, bs =>
    (match Assoc.get? k bs with
      | some b => beq a b
      | none => false) && beqEntries as bs

end

/-- Whether some value in the list is equal to `v`. -/
def isAmong (v : Value) (items : List Value) : Bool := items.any fun w => beq w v

/-- The values without those that are equal to an earlier one; `kept` holds the earlier ones. -/
def distinctFrom (kept : List Value) : List Value → List Value
  | [] => []
  | v :: rest =>
    if v.isAmong kept then distinctFrom kept rest else v :: distinctFrom (kept ++ [v]) rest

/-- The values without those that are equal to an earlier one. -/
def distinct (items : List Value) : List Value := distinctFrom [] items

/-! ## Lemmas -/

theorem isAmong_eq_false_iff (v : Value) (items : List Value) :
    v.isAmong items = false ↔ ∀ w ∈ items, beq w v = false := by
  simp [isAmong, List.any_eq_false]

theorem mem_distinctFrom {kept items : List Value} {v : Value} (h : v ∈ distinctFrom kept items) :
    v ∈ items ∧ ∀ w ∈ kept, beq w v = false := by
  induction items generalizing kept with
  | nil => simp [distinctFrom] at h
  | cons x rest ih =>
    rw [distinctFrom] at h
    split at h
    · exact ⟨List.mem_cons_of_mem _ (ih h).1, (ih h).2⟩
    · next hx =>
      rcases List.mem_cons.1 h with rfl | h
      · exact ⟨List.mem_cons_self, (isAmong_eq_false_iff v kept).1 (by simpa using hx)⟩
      · obtain ⟨hm, hk⟩ := ih h
        exact ⟨List.mem_cons_of_mem _ hm, fun w hw => hk w (List.mem_append_left _ hw)⟩

theorem pairwise_distinctFrom (kept items : List Value) :
    (distinctFrom kept items).Pairwise fun v w => beq v w = false := by
  induction items generalizing kept with
  | nil => exact List.Pairwise.nil
  | cons x rest ih =>
    rw [distinctFrom]
    split
    · exact ih kept
    · refine List.Pairwise.cons (fun w hw => ?_) (ih _)
      exact (mem_distinctFrom hw).2 x (List.mem_append_right _ List.mem_cons_self)

theorem mem_of_mem_distinct {items : List Value} {v : Value} (h : v ∈ distinct items) : v ∈ items :=
  (mem_distinctFrom h).1

theorem pairwise_distinct (items : List Value) :
    (distinct items).Pairwise fun v w => beq v w = false :=
  pairwise_distinctFrom [] items

theorem beqEntries_eq_true_iff (as bs : List (String × Value)) :
    beqEntries as bs = true ↔
      ∀ e ∈ as, ∃ b, Assoc.get? e.1 bs = some b ∧ beq e.2 b = true := by
  induction as with
  | nil => simp [beqEntries]
  | cons e as ih =>
    obtain ⟨k, a⟩ := e
    rw [beqEntries, Bool.and_eq_true, ih]
    simp only [List.mem_cons, forall_eq_or_imp]
    refine and_congr ?_ Iff.rfl
    cases Assoc.get? k bs <;> simp

end Value

end CommandShell
