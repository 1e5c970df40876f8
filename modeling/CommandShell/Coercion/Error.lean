/-!
# Why a literal is no value

The four ways in which a literal fails to become a value of its type.
-/

namespace CommandShell

inductive CoercionError where
  | invalid (expected literal : String)
  | missing (expected : String)
  | unsupported (type : String)
  | form (type reason : String)
  deriving DecidableEq

def CoercionError.message : CoercionError → String
  | invalid expected literal => "'" ++ literal ++ "' is not a valid " ++ expected
  | missing expected => "a value is required for " ++ expected
  | unsupported type => "no coercion registered for type " ++ type
  | form type reason => "could not build " ++ type ++ ": " ++ reason

end CommandShell
