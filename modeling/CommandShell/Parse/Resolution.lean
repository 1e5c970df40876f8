import CommandShell.Line.Word
import CommandShell.Parse.Strategy
/-!
# From flags and leftover words to values

A strategy first takes an argument text apart into the values given for flags and the words left
over.  `resolve` then gives every parameter its value, in three steps for each: a value that is
there already, the value of its flag, or a leftover word.  Parameters addressed by a flag that
was not given keep a default and may be filled afterwards from the leftovers that remain.

    leftovers go out in order and each once; a joint parameter takes all that are left
-/

namespace CommandShell

/-- What a strategy found in an argument text. -/
structure Extraction where
  flags : List (String × Given)
  leftovers : List String
  deriving DecidableEq

namespace Extraction

def empty : Extraction := ⟨[], []⟩

/-- Records a flag; the last value given for a name counts. -/
def withFlag (e : Extraction) (name : String) (given : Given) : Extraction :=
  { e with flags := Assoc.put name given e.flags }

def withLeftover (e : Extraction) (word : String) : Extraction :=
  { e with leftovers := e.leftovers ++ [word] }

end Extraction

/-- How parameters are looked up among the flags found. -/
inductive KeyStyle where
  /-- By long name or letter. -/
  | flags
  /-- By long name alone. -/
  | names
  deriving DecidableEq

/-- Whether a parameter is looked up at all; otherwise it is filled from leftovers. -/
def KeyStyle.isKeyed : KeyStyle → Parameter → Bool
  | flags, p => p.hasFlag
  | names, p => p.long.isSome

/-- What was given for a parameter, by its long name or else by its letter. -/
def KeyStyle.lookup (style : KeyStyle) (p : Parameter) (found : List (String × Given)) :
    Option Given :=
  let byLong := p.long.bind fun name => Assoc.get? name found
  match style with
  | flags => byLong.or (p.shortName.bind fun name => Assoc.get? name found)
  | names => byLong

/-- The next leftover and those behind it; a joint parameter takes all of them. -/
def takeLeftover (joint : Bool) : List String → Option (String × List String)
  | [] => none
  | word :: rest => if joint then some (Line.joined (word :: rest), []) else some (word, rest)

/-- A value for a parameter, and whether a leftover may still replace it. -/
structure Slot where
  value : Value
  replaceable : Bool

def Slot.fixed (v : Value) : Slot := ⟨v, false⟩

/-- Coerces what was given for a parameter. -/
def coerceFor (ctx : ParseContext) (p : Parameter) (given : Given) : Except ParseFailure Value :=
  match ctx.coercions.coerce p.type given with
  | .ok v => .ok v
  | .error cause => .error (.coercion p.label cause)

/-- The default of a parameter, else the zero of its type. -/
def fallback (ctx : ParseContext) (p : Parameter) : Except ParseFailure Value :=
  match p.default with
  | some literal => coerceFor ctx p (.text literal)
  | none => .ok (Value.zero p.type)

/-- The value of a parameter, and the leftovers it does not use. -/
def fillOne (style : KeyStyle) (ctx : ParseContext) (found : List (String × Given))
    (leftovers : List String) (p : Parameter) (prefilled : Option Value) :
    Except ParseFailure (Slot × List String) :=
  match prefilled.or (ctx.presetFor p) with
  | some v => .ok (.fixed v, leftovers)
  | none =>
    if style.isKeyed p then
      match style.lookup p found with
      | some given => (coerceFor ctx p given).map fun v => (.fixed v, leftovers)
      | none =>
        if p.required then .error (.lackRequired p.label)
        else (fallback ctx p).map fun v => (⟨v, p.type ≠ .bool⟩, leftovers)
    else
      match takeLeftover p.joint leftovers with
      | some (word, rest) => (coerceFor ctx p (.text word)).map fun v => (.fixed v, rest)
      | none =>
        match p.default with
        | some literal => (coerceFor ctx p (.text literal)).map fun v => (.fixed v, leftovers)
        | none => .error (.incomplete p.label)

/-- The values of parameters in order, of which the first stands at `position`. -/
def fillAll (style : KeyStyle) (ctx : ParseContext) (prefilled : List (Nat × Value))
    (found : List (String × Given)) (position : Nat) (leftovers : List String) :
    List Parameter → Except ParseFailure (List Slot × List String)
  | [] => .ok ([], leftovers)
  | p :: rest =>
    match fillOne style ctx found leftovers p (Assoc.get? position prefilled) with
    | .error e => .error e
    | .ok (slot, leftovers) =>
      match fillAll style ctx prefilled found (position + 1) leftovers rest with
      | .error e => .error e
      | .ok (slots, leftovers) => .ok (slot :: slots, leftovers)

/-- The parameters that a leftover may still fill, with their positions; the joint one comes last
so that it takes only what is left. -/
def backfillOrder (ps : List Parameter) (slots : List Slot) : List (Nat × Parameter) :=
  let replaceable := (ps.zip slots).zipIdx.filterMap fun ((p, slot), i) =>
    if slot.replaceable then some (i, p) else none
  replaceable.filter (fun (_, p) => !p.joint) ++ replaceable.filter fun (_, p) => p.joint

/-- Fills parameters from leftovers as long as there are any. -/
def backfill (ctx : ParseContext) (values : List Value) (leftovers : List String) :
    List (Nat × Parameter) → Except ParseFailure (List Value)
  | [] => .ok values
  | (i, p) :: rest =>
    match takeLeftover p.joint leftovers with
    | none => .ok values
    | some (word, leftovers) =>
      match coerceFor ctx p (.text word) with
      | .error e => .error e
      | .ok v => backfill ctx (values.set i v) leftovers rest

/-- The value of every parameter.  `prefilled` holds values found already, by position. -/
def resolve (ps : List Parameter) (e : Extraction) (style : KeyStyle) (ctx : ParseContext)
    (prefilled : List (Nat × Value)) : Except ParseFailure (List Value) :=
  match fillAll style ctx prefilled e.flags 0 e.leftovers ps with
  | .error e => .error e
  | .ok (slots, leftovers) =>
    backfill ctx (slots.map (·.value)) leftovers (backfillOrder ps slots)

end CommandShell
