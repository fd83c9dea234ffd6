import Orchestration.Environment

/-!
# Expressions

An expression is a literal, the value at a path, or the joined text of its parts.
Evaluating one reads the environment and cannot fail.
-/

set_option autoImplicit false

namespace Orchestration

inductive Expr where
  | literal (v : Value)
  | path (p : Path)
  | concat (parts : List Expr)
  deriving Inhabited

namespace Expr

mutual

def eval (env : Environment) : Expr → Value
  | .literal v => v
  | .path p => env.value p
  | .concat parts => .str (joined env parts)

def joined (env : Environment) : List Expr → String
  | [] => ""
  | e :: rest => (e.eval env).text ++ joined env rest

end

mutual

def agrees : Expr → Expr → Bool
  | .literal v, .literal w => v.agrees w
  | .path p, .path q => p = q
  | .concat ps, .concat qs => agreeAll ps qs
  | _, _ => false

def agreeAll : List Expr → List Expr → Bool
  | [], [] => true
  | e :: es, f :: fs => e.agrees f && agreeAll es fs
  | _, _ => false

end

def agreeOption : Option Expr → Option Expr → Bool
  | none, none => true
  | some e, some f => e.agrees f
  | _, _ => false

end Expr

end Orchestration
