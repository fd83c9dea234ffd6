import Orchestration.Value

/-!
# Faults

A fault is a name with a payload. Activities raise faults and handlers take them;
a request to terminate the session is a fault that is held instead of raised.
-/

set_option autoImplicit false

namespace Orchestration

structure Fault where
  name : String
  payload : Value
  deriving DecidableEq, Repr, Inhabited

namespace Fault

def text (f : Fault) : String :=
  if f.payload.isVoid then f.name else f.name ++ ": " ++ f.payload.text

def outputName : String := "IOException"

end Fault

end Orchestration
