import CommandShell.Task.Index
/-!
# Sessions

A session holds the variables, the history and the tasks of one caller: a thread, or whoever
opens it by name.

    (push s r).history = the last historyLimit records of s.history ++ [r]
    (reset s) holds nothing and goes on numbering tasks where s was
-/

namespace CommandShell

/-- Who a session belongs to. -/
inductive SessionKey where
  | thread (id : Nat)
  | named (name : String)
  deriving DecidableEq

/-- How filters and listings name a session. -/
def SessionKey.label : SessionKey → String
  | thread id => "ThreadId(" ++ Text.intText id ++ ")"
  | named name => name

structure Session where
  key : SessionKey
  /-- By ascending name. -/
  vars : List (String × Json)
  /-- Oldest first. -/
  history : List Record
  historyLimit : Nat
  tasks : TaskIndex

namespace Session

def empty (key : SessionKey) (historyLimit : Nat) : Session :=
  ⟨key, [], [], historyLimit, .empty⟩

def label (s : Session) : String := s.key.label

def getVariable (s : Session) (name : String) : Option Json := Assoc.get? name s.vars

def setVariable (s : Session) (name : String) (value : Json) : Session :=
  { s with vars := Assoc.putSorted name value s.vars }

def removeVariable (s : Session) (name : String) : Session :=
  { s with vars := Assoc.erase name s.vars }

/-- Appends a record and drops the oldest ones beyond the limit. -/
def push (s : Session) (r : Record) : Session :=
  let history := s.history ++ [r]
  { s with history := history.drop (history.length - s.historyLimit) }

/-- The newest record. -/
def last? (s : Session) : Option Record := s.history.getLast?

/-- Forgets variables and history and takes all tasks off the index. -/
def reset (s : Session) : Session :=
  { s with vars := [], history := [], tasks := (s.tasks.clear false).2 }

end Session

end CommandShell
