import CommandShell.Coercion.Error
import CommandShell.Parameter
/-!
# Why arguments do not parse

A `Mismatch` says at registration why parameters do not fit a strategy; a `ParseFailure` says at
a call why the argument text gives no arguments.
-/

namespace CommandShell

inductive Mismatch where
  | shortTwice (c : Char)
  | longTwice (name : String)
  | secondJoint
  | noCollection
  | notString (label : String) (type : ValueType)
  | notOneString
  | other (reason : String)
  deriving DecidableEq

def Mismatch.message : Mismatch → String
  | shortTwice c => "short flag " ++ String.ofList ['-', c] ++ " is declared twice"
  | longTwice name => "long flag --" ++ name ++ " is declared twice"
  | secondJoint => "at most one joint parameter is allowed"
  | noCollection => "collection parsing needs at least one collection parameter"
  | notString label type =>
    "raw parameter " ++ label ++ " must be a string, found " ++ type.display
  | notOneString => "raw parsing needs exactly one string parameter"
  | other reason => reason

inductive ParseFailure where
  | lackRequired (parameter : String)
  | coercion (parameter : String) (cause : CoercionError)
  | incomplete (parameter : String)
  | strategyMismatch (strategy reason : String)
  deriving DecidableEq

namespace ParseFailure

def message : ParseFailure → String
  | lackRequired parameter => "missing required parameter " ++ parameter
  | coercion parameter cause => "invalid value for " ++ parameter ++ ": " ++ cause.message
  | incomplete parameter => "incomplete command: no value for " ++ parameter
  | strategyMismatch strategy reason =>
    "parser '" ++ strategy ++ "' cannot handle this command: " ++ reason

/-- The label of the kind of failure in records. -/
def kind : ParseFailure → String
  | lackRequired _ => "lack-required"
  | coercion _ _ => "coercion-error"
  | incomplete _ => "incomplete-command"
  | strategyMismatch _ _ => "strategy-mismatch"

end ParseFailure

end CommandShell
