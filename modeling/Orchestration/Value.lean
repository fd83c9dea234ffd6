import Orchestration.Double.Shortest

/-!
# Values

The scalars that variables hold and faults carry. The engine moves values about
and prints them; it never computes with them.
-/

set_option autoImplicit false

namespace Orchestration

inductive Value where
  | void
  | bool (b : Bool)
  | int (n : Int64)
  | double (x : Double)
  | str (s : String)
  deriving DecidableEq, Repr, Inhabited

namespace Value

def isVoid : Value → Bool
  | .void => true
  | _ => false

def typeName : Value → String
  | .void => "void"
  | .bool _ => "bool"
  | .int _ => "int"
  | .double _ => "double"
  | .str _ => "str"

def text : Value → String
  | .void => ""
  | .bool b => if b then "true" else "false"
  | .int n => toString n.toInt
  | .double x => x.text
  | .str s => s

/-- Equality of contents, where doubles are compared as numbers. -/
def agrees : Value → Value → Bool
  | .double x, .double y => x.agrees y
  | v, w => v = w

end Value

end Orchestration
