import CommandShell.Line.Random
import CommandShell.Registry.Running
import CommandShell.Session.Table
import CommandShell.Settings
/-!
# The world of an interpreter

An `Interpreter` is what does not change: settings, registry, coercions and presets.  A `World` is
everything that does: sessions, which session each thread is bound to, the queue of background
jobs and the jobs that run, what was printed on the terminal, time and chance.  Chance settles two
things: the numbers of random placeholders, and the order in which tables of literals are walked.

    currentKey th = the key that th is bound to, else the thread's own
-/

namespace CommandShell

structure Interpreter where
  settings : Settings
  registry : Registry
  coercions : Coercions
  /-- Values for ambient types by name; the console is none of them. -/
  presets : List (String × Value)

/-- Who runs something: a thread of callers, or a worker of the pool. -/
inductive Thread where
  | caller (id : Nat)
  | worker (id : Nat)
  deriving DecidableEq

/-- The key of a thread's own session; workers come after all callers. -/
def Thread.ownKey : Thread → SessionKey
  | caller id => .thread (2 * id + 1)
  | worker id => .thread (2 * id + 2)

/-- A call that is under way, with what is left of the script of its handler. -/
structure Invocation extends Call where
  script : Script (Except Failure Json)

/-- The moment for which a call waits, if it does. -/
def Invocation.moment? (inv : Invocation) : Option Timestamp :=
  match inv.script with
  | .request (.sleepUntil moment) _ => some moment
  | _ => none

/-- A line submitted as a background task. -/
structure Job where
  /-- The number of the submitting session. -/
  session : Nat
  generation : Nat
  key : SessionKey
  line : String

/-- A job on a worker. -/
structure Running where
  worker : Nat
  job : Job
  /-- What the worker was bound to before. -/
  previous : Option SessionKey
  /-- The call of the job's line; a blank line makes none. -/
  invocation : Option Invocation

structure Pool where
  /-- How many jobs may run at once. -/
  workers : Nat
  /-- Jobs that wait for a worker, first in line first. -/
  queue : List Job
  running : List Running
  stopped : Bool

/-- A pool without jobs; it has one worker at least. -/
def Pool.empty (workers : Nat) : Pool := ⟨max workers 1, [], [], false⟩

structure World where
  sessions : SessionTable
  /-- The keys that threads are bound to. -/
  bound : List (Thread × SessionKey)
  pool : Pool
  /-- What was printed on the terminal. -/
  terminal : String
  /-- The gates that are open. -/
  gates : List String
  exitRequested : Bool
  /-- Whether the interpreter was shut down. -/
  shutDown : Bool
  now : Timestamp
  chance : Generator
  /-- The order in which the next table of literals will be walked; it may change at any time. -/
  order : TableOrder
  /-- What ran so far, oldest first. -/
  events : List Event

namespace World

/-- The world in which an interpreter starts. -/
def initial (settings : Settings) (now : Timestamp) (seed : Nat) : World where
  sessions := .empty settings.historyLimit.toNat
  bound := []
  pool := .empty settings.workers.toNat
  terminal := ""
  gates := []
  exitRequested := false
  shutDown := false
  now := now
  chance := .seed seed
  order := .asFilled
  events := []

def log (w : World) (events : List Event) : World := { w with events := w.events ++ events }

/-- The world in which the next table of literals will be walked in that order. -/
def inOrder (w : World) (order : TableOrder) : World := { w with order := order }

/-! ## Sessions of threads -/

/-- The key under which a thread acts. -/
def currentKey (w : World) (th : Thread) : SessionKey := (Assoc.get? th w.bound).getD th.ownKey

/-- Binds a thread to a key, or frees it. -/
def bind (w : World) (th : Thread) : Option SessionKey → World
  | some key => { w with bound := Assoc.put th key w.bound }
  | none => { w with bound := Assoc.erase th w.bound }

/-- The number of the session of a key. -/
def locate (w : World) (key : SessionKey) : Nat × World :=
  let (n, sessions) := w.sessions.locate key
  (n, { w with sessions := sessions })

/-- The number of the session in which a thread acts. -/
def current (w : World) (th : Thread) : Nat × World := w.locate (w.currentKey th)

def session (w : World) (number : Nat) : Session := w.sessions.session number

def modifySession (w : World) (number : Nat) (f : Session → Session) : World :=
  { w with sessions := w.sessions.modify number f }

/-- Does something with a thread bound to a key and restores the binding it had. -/
def runAs {α : Type} (w : World) (th : Thread) (key : SessionKey) (work : World → α × World) :
    α × World :=
  let previous := Assoc.get? th w.bound
  let (a, after) := work (w.bind th (some key))
  (a, after.bind th previous)

/-! ## Explicit sessions -/

/-- What closes an explicit session: which it is, who opened it, and what that thread was bound
to before. -/
structure Guard where
  session : Nat
  thread : Thread
  previous : Option SessionKey

/-- Binds a thread to the session of a name, which is made if there is none. -/
def openSession (w : World) (th : Thread) (name : String) : Guard × World :=
  let (n, w) := w.locate (.named name)
  (⟨n, th, Assoc.get? th w.bound⟩, w.bind th (some (.named name)))

/-- Empties the session of a guard and binds its thread to what it was bound to before. -/
def dispose (w : World) (g : Guard) : World :=
  (w.modifySession g.session Session.reset).bind g.thread g.previous

/-! ## Printing -/

/-- Prints a text on a console. -/
def print (w : World) (console : Console) (text : String) : World :=
  match console with
  | .terminal => { w with terminal := w.terminal ++ text }
  | .capture session generation =>
    w.modifySession session fun s => { s with tasks := s.tasks.print generation text }

end World

end CommandShell
