import CommandShell.Parse.Names
import CommandShell.Parse.Raw
import CommandShell.Parse.Spans
/-!
# The strategies that are always there

The four built-in strategies under the names by which commands ask for them.
-/

namespace CommandShell.Strategy

/-- The built-in strategies. -/
def builtin : StrategySet :=
  [(defaultName, flags), (positionalName, names), (rawName, raw), (collectionName, spans)]

/-- The strategies of a set by name, in ascending order. -/
def namesOf (set : StrategySet) : List String := Assoc.keys (Assoc.sorted set)

end CommandShell.Strategy
