import CommandShell.Parse.Failure
/-!
# Why a call fails

An `ErrorChain` is the error of a handler with its causes.  A `Failure` is what a call ends with
when it is not answered: its arguments did not parse, a filter turned it away, or its handler
failed.
-/

namespace CommandShell

/-- An error and what caused it, outermost first. -/
structure ErrorChain where
  message : String
  causes : List String
  deriving DecidableEq

namespace ErrorChain

/-- An error without a cause. -/
def single (message : String) : ErrorChain := ⟨message, []⟩

/-- The error of which every message but the first was put around the one before it. -/
def ofMessages (messages : List String) : ErrorChain :=
  match messages.reverse with
  | [] => ⟨"", []⟩
  | message :: causes => ⟨message, causes⟩

/-- A text whose further lines are indented. -/
def indentLines (indent : Nat) (s : String) : List Char :=
  s.toList.flatMap fun c => if c = '\n' then '\n' :: List.replicate indent ' ' else [c]

/-- A number in five columns. -/
def column (n : Nat) : List Char :=
  let digits := Text.natDigits n
  List.replicate (5 - digits.length) ' ' ++ digits

/-- The causes, one a line, numbered from `n`. -/
def numberedCauses (n : Nat) : List String → List Char
  | [] => []
  | cause :: rest =>
    '\n' :: column n ++ ':' :: ' ' :: indentLines 7 cause ++ numberedCauses (n + 1) rest

/-- The error with all its causes; several causes are numbered. -/
def detail (e : ErrorChain) : String :=
  match e.causes with
  | [] => e.message
  | [cause] =>
    e.message ++ "\n\nCaused by:\n" ++ String.ofList (List.replicate 4 ' ' ++ indentLines 4 cause)
  | causes => e.message ++ "\n\nCaused by:" ++ String.ofList (numberedCauses 0 causes)

end ErrorChain

inductive Failure where
  | parse (cause : ParseFailure)
  | rejected (filter reason : String)
  | handler (command message detail : String)
  deriving DecidableEq

namespace Failure

def message : Failure → String
  | parse cause => cause.message
  | rejected filter reason => "rejected by filter " ++ filter ++ ": " ++ reason
  | handler command message _ => command ++ " failed: " ++ message

/-- The label of the kind of failure in records. -/
def kind : Failure → String
  | parse cause => cause.kind
  | rejected _ _ => "filter-rejection"
  | handler _ _ _ => "handler-failure"

/-- What there is to say beyond the message. -/
def detail? : Failure → Option String
  | handler _ _ detail => if detail = "" then none else some detail
  | _ => none

/-- The failure of a command whose handler ended with an error. -/
def ofError (command : String) (e : ErrorChain) : Failure := handler command e.message e.detail

end Failure

end CommandShell
