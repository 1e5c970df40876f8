import CommandShell.Parse.Builtin
import CommandShell.Registry.Entry
/-!
# The registry

The registry holds every entry under its name.  Registering a name again replaces the entry and
counts as a new registration.  A command is registered only if its strategy is there and accepts
its parameters.

    find r name = the command that the name or alias leads to, else noop    (find)
    byPriority r kind = the entries of that kind by priority, ties in order of registration
-/

namespace CommandShell

inductive RegistrationError where
  | unknownStrategy (command strategy : String)
  | strategyMismatch (command strategy : String) (reason : Mismatch)
  deriving DecidableEq

def RegistrationError.message : RegistrationError → String
  | unknownStrategy command strategy =>
    command ++ ": unknown parsing strategy '" ++ strategy ++ "'"
  | strategyMismatch command strategy reason =>
    command ++ ": parameters do not fit the '" ++ strategy ++ "' strategy: " ++ reason.message

structure Registry where
  /-- In the order of registration. -/
  entries : List Entry
  /-- The name that each alias leads to. -/
  aliases : List (String × String)
  strategies : StrategySet

namespace Registry

def empty (strategies : StrategySet) : Registry := ⟨[], [], strategies⟩

/-- What unknown commands run: it takes any arguments and does nothing. -/
def noop : Entry :=
  { Entry.ofHandler "noop" (.command fun _ => .done (.answered .null)) with
    description := some "Fallback for unknown commands" }

/-! ## Looking up -/

/-- The entry of exactly that name. -/
def entry? (r : Registry) (name : String) : Option Entry := r.entries.find? fun e => e.name = name

/-- The entry that a name or an alias leads to; aliases come first. -/
def lookup (r : Registry) (name : String) : Option Entry :=
  r.entry? ((Assoc.get? name r.aliases).getD name)

/-- The command that a name or an alias leads to. -/
def command? (r : Registry) (name : String) : Option Entry := (r.lookup name).filter (·.isCommand)

/-- The command that a name or an alias leads to, else the one that does nothing. -/
def find (r : Registry) (name : String) : Entry := (r.command? name).getD noop

/-- The name under which a command runs: its own, or the one it was called by if it is
unknown. -/
def canonicalName (r : Registry) (name : String) : String :=
  match r.command? name with
  | some e => e.name
  | none => name

/-- The strategy that parses the arguments of an entry. -/
def strategyOf? (r : Registry) (e : Entry) : Option Strategy := Assoc.get? e.strategy r.strategies

def count (r : Registry) : Nat := r.entries.length

/-- The commands in the order of registration. -/
def commands (r : Registry) : List Entry := r.entries.filter (·.isCommand)

/-- The categories of commands, each where it is seen first. -/
def categories (r : Registry) : List String :=
  r.commands.foldl (fun seen e => if e.category ∈ seen then seen else seen ++ [e.category]) []

/-! ## Registering -/

/-- What keeps an entry from being registered, if anything does. -/
def refusal? (r : Registry) (e : Entry) : Option RegistrationError :=
  if e.isCommand then
    match r.strategyOf? e with
    | none => some (.unknownStrategy e.name e.strategy)
    | some s => (s.mismatch e.parameters).map (.strategyMismatch e.name e.strategy)
  else none

/-- The registry without the entry of a name and without the aliases that lead to it. -/
def remove (r : Registry) (name : String) : Registry :=
  if (r.entry? name).isSome then
    { r with
      entries := r.entries.filter fun e => e.name ≠ name
      aliases := r.aliases.filter fun p => p.2 ≠ name }
  else r

/-- The registry with an entry at its end, in place of an earlier one of the same name. -/
def add (r : Registry) (e : Entry) : Registry :=
  let r := r.remove e.name
  { r with
    entries := r.entries ++ [e]
    aliases := e.aliases.foldl (fun m other => Assoc.put other e.name m) r.aliases }

/-- Tries to register an entry: what keeps it from being registered, if anything does, and the
registry afterwards. -/
def register (r : Registry) (e : Entry) : Except RegistrationError Unit × Registry :=
  match r.refusal? e with
  | some error => (.error error, r)
  | none => (.ok (), r.add e)

/-- Registers an entry, or drops it. -/
def registerOrDrop (r : Registry) (e : Entry) : Registry := (r.register e).2

/-- The registry in which entries were registered in turn, except those that are refused. -/
def ofEntries (strategies : StrategySet) (es : List Entry) : Registry :=
  es.foldl registerOrDrop (empty strategies)

/-! ## Order of running -/

/-- Puts an entry before the first one of the same or a higher priority. -/
def insertByPriority (e : Entry) : List Entry → List Entry
  | [] => [e]
  | f :: rest => if e.priority ≤ f.priority then e :: f :: rest else f :: insertByPriority e rest

/-- The entries by ascending priority; those of equal priority keep their order. -/
def sortByPriority : List Entry → List Entry
  | [] => []
  | e :: rest => insertByPriority e (sortByPriority rest)

/-- The entries of a kind by ascending priority. -/
def byPriority (r : Registry) (kind : EntryKind) : List Entry :=
  sortByPriority (r.entries.filter fun e => e.kind = kind)

/-- The filters for a command in the order in which they run. -/
def filterChain (r : Registry) (command : String) : List Entry :=
  (r.byPriority .filter).filter fun e => e.covers command

end Registry

end CommandShell
