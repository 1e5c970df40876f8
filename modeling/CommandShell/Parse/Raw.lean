import CommandShell.Parse.Strategy
/-!
# The strategy without parsing

The argument text goes as it stands to the one parameter that is not ambient, which must be a
string.
-/

namespace CommandShell.Strategy

/-- The parameters that the surroundings do not supply. -/
def textParameters (ps : List Parameter) : List Parameter := ps.filter fun p => !p.type.isAmbient

def rawMismatch (ps : List Parameter) : Option Mismatch :=
  match textParameters ps with
  | [p] => if p.type = .str then none else some (.notString p.label p.type)
  | _ => some .notOneString

/-- The value of one parameter. -/
def rawValue (raw : String) (ctx : ParseContext) (p : Parameter) : Except ParseFailure Value :=
  match p.type with
  | .ambient _ =>
    match ctx.presetFor p with
    | some v => .ok v
    | none => .error (.incomplete p.label)
  | _ => .ok (.str raw)

/-- The strategy that hands the argument text over as it is. -/
def raw : Strategy where
  mismatch := rawMismatch
  parse ps text ctx := readEach (rawValue text ctx) ps

end CommandShell.Strategy
