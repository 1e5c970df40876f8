import CommandShell.Session.Basic
/-!
# The table of sessions

Each key has at most one session, made when it is first asked for.  A session keeps its number
for good: one that the table forgets lives on for those who hold its number, and asking for its
key again makes a new one.

    locate key = the number under key, that of a new session if there is none
-/

namespace CommandShell

structure SessionTable where
  /-- Every session ever made, by its number. -/
  sessions : List Session
  /-- The numbers of the sessions that are known, by key. -/
  known : List (SessionKey × Nat)
  historyLimit : Nat

namespace SessionTable

def empty (historyLimit : Nat) : SessionTable := ⟨[], [], historyLimit⟩

/-- The number of the session of a key. -/
def number? (t : SessionTable) (key : SessionKey) : Option Nat := Assoc.get? key t.known

/-- The session of a number; one that was never made is empty. -/
def session (t : SessionTable) (number : Nat) : Session :=
  (t.sessions[number]?).getD (.empty (.thread 0) t.historyLimit)

/-- The number of the session of a key, which is made if there is none. -/
def locate (t : SessionTable) (key : SessionKey) : Nat × SessionTable :=
  match t.number? key with
  | some n => (n, t)
  | none =>
    (t.sessions.length,
      { t with
        sessions := t.sessions ++ [.empty key t.historyLimit]
        known := t.known ++ [(key, t.sessions.length)] })

/-- The table with one session changed. -/
def modify (t : SessionTable) (number : Nat) (f : Session → Session) : SessionTable :=
  { t with sessions := t.sessions.modify number f }

/-- The table without a key. -/
def forget (t : SessionTable) (key : SessionKey) : SessionTable :=
  { t with known := Assoc.erase key t.known }

/-- How many sessions are known. -/
def count (t : SessionTable) : Nat := t.known.length

end SessionTable

end CommandShell
