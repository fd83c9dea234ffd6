import Orchestration.Json.Decoder
import Orchestration.Program

/-!
# Reading descriptions

What is needed in a description and what may be left out: the payload of a fault to
throw or kill with, `auto_pop`, which then holds, and each of the limits. A
description that is refused is no JSON of the right shape, or it names a variable by
a malformed path.
-/

set_option autoImplicit false

namespace Orchestration

open Json Json.Decoder

namespace Value

def units : String → Option Value
  | "void" => some .void
  | _ => none

def contents : String → Option (Decoder Value)
  | "bool" => some (Decoder.bool.andThen fun b => .ok (.bool b))
  | "int" => some (int64.andThen fun n => .ok (.int n))
  | "double" => some (Decoder.double.andThen fun x => .ok (.double x))
  | "str" => some (string.andThen fun s => .ok (.str s))
  | _ => none

def ofJson : Decoder Value := case units contents

end Value

namespace Expr

def contents (self : Decoder Expr) : String → Option (Decoder Expr)
  | "literal" => some (Value.ofJson.andThen fun v => .ok (.literal v))
  | "path" => some (Decoder.path.andThen fun p => .ok (.path p))
  | "concat" => some ((array self).andThen fun es => .ok (.concat es))
  | _ => none

def ofJson : Decoder Expr := recursive fun self => case (fun _ => none) (contents self)

end Expr

namespace Target

def units : String → Option Target
  | "default" => some .default
  | "this" => some .this
  | _ => none

def contents : String → Option (Decoder Target)
  | "fault" => some (string.andThen fun name => .ok (.fault name))
  | _ => none

def ofJson : Decoder Target := case units contents

end Target

/-! Records are read into structures of the fields found so far. -/

structure AssignFields where
  path : Option Path
  value : Option Expr

structure FaultFields where
  fault : Option String
  payload : Option (Option Expr)

structure HandlerFields where
  target : Option Target
  handler : Option Activity

structure ScopeFields where
  id : Option String
  body : Option Activity
  autoPop : Option Bool

namespace Activity

def units : String → Option Activity
  | "nil" => some .nil
  | "exit" => some .exit
  | _ => none

def assignFields : Decoder AssignFields :=
  Decoder.record [
    field "path" Decoder.path (·.path) fun s p => { s with path := some p },
    field "value" Expr.ofJson (·.value) fun s e => { s with value := some e }] false ⟨none, none⟩

def assignOfJson : Decoder Activity :=
  assignFields.andThen fun s => return .assign (← require s.path) (← require s.value)

def faultFields : Decoder FaultFields :=
  Decoder.record [
    field "fault" string (·.fault) fun s n => { s with fault := some n },
    field "payload" (nullable Expr.ofJson) (·.payload) fun s e => { s with payload := some e }]
    false ⟨none, none⟩

def faultOfJson (make : String → Option Expr → Activity) : Decoder Activity :=
  faultFields.andThen fun s => return make (← require s.fault) (s.payload.getD none)

def handlerFields (self : Decoder Activity) : Decoder HandlerFields :=
  Decoder.record [
    field "target" Target.ofJson (·.target) fun s t => { s with target := some t },
    field "handler" self (·.handler) fun s p => { s with handler := some p }] false ⟨none, none⟩

def handlerOfJson (self : Decoder Activity) : Decoder (Target × Activity) :=
  (handlerFields self).andThen fun s => return (← require s.target, ← require s.handler)

def scopeFields (self : Decoder Activity) : Decoder ScopeFields :=
  Decoder.record [
    field "id" string (·.id) fun s i => { s with id := some i },
    field "body" self (·.body) fun s p => { s with body := some p },
    field "auto_pop" Decoder.bool (·.autoPop) fun s b => { s with autoPop := some b }] false
    ⟨none, none, none⟩

def scopeOfJson (self : Decoder Activity) : Decoder ScopeDefinition :=
  (scopeFields self).andThen fun s =>
    return ⟨← require s.id, ← require s.body, s.autoPop.getD true⟩

def contents (self : Decoder Activity) : String → Option (Decoder Activity)
  | "sequence" => some ((array self).andThen fun ps => .ok (.sequence ps))
  | "parallel" => some ((array self).andThen fun ps => .ok (.parallel ps))
  | "assign" => some assignOfJson
  | "print" => some ((array Expr.ofJson).andThen fun es => .ok (.print es))
  | "throw" => some (faultOfJson .throw)
  | "kill" => some (faultOfJson .kill)
  | "install" => some ((array (handlerOfJson self)).andThen fun hs => .ok (.install hs))
  | "compensate" => some (string.andThen fun s => .ok (.compensate s))
  | "scope" => some ((scopeOfJson self).andThen fun d => .ok d.activity)
  | _ => none

def ofJson : Decoder Activity := recursive fun self => case units (contents self)

end Activity

def ScopeDefinition.ofJson : Decoder ScopeDefinition := Activity.scopeOfJson Activity.ofJson

structure FaultParts where
  name : Option String
  payload : Option Value

/-- Reads a fault that has been made; its payload is needed even if it is void. -/
def Fault.ofJson : Decoder Fault :=
  (Decoder.record [
    field "name" string (·.name) fun s n => { s with name := some n },
    field "payload" Value.ofJson (·.payload) fun s v => { s with payload := some v }]
    false (⟨none, none⟩ : FaultParts)).andThen fun s =>
    return ⟨← require s.name, ← require s.payload⟩

structure DurationFields where
  secs : Option Nat
  nanos : Option Nat

def Duration.ofJson : Decoder Duration :=
  (Decoder.record [
    field "secs" (natBelow UInt64.size) (·.secs) fun s n => { s with secs := some n },
    field "nanos" (natBelow UInt32.size) (·.nanos) fun s n => { s with nanos := some n }]
    true (⟨none, none⟩ : DurationFields)).andThen fun s => do
    require (Duration.ofParts? (← require s.secs) (← require s.nanos))

structure LimitFields where
  scopeDepth : Option (Option UInt64)
  operations : Option (Option UInt64)
  duration : Option (Option Duration)

def Limits.ofJson : Decoder Limits :=
  (Decoder.record [
    field "max_scope_depth" (nullable word64) (·.scopeDepth)
      fun s n => { s with scopeDepth := some n },
    field "max_operations" (nullable word64) (·.operations)
      fun s n => { s with operations := some n },
    field "max_duration" (nullable Duration.ofJson) (·.duration)
      fun s d => { s with duration := some d }]
    false (⟨Option.none, Option.none, Option.none⟩ : LimitFields)).andThen fun s =>
    .ok ⟨s.scopeDepth.join, s.operations.join, s.duration.join⟩

structure ProgramFields where
  main : Option Activity
  limits : Option Limits

namespace Program

def ofJson : Decoder Program :=
  (Decoder.record [
    field "main" Activity.ofJson (·.main) fun s p => { s with main := some p },
    field "limits" Limits.ofJson (·.limits) fun s l => { s with limits := some l }]
    false (⟨none, none⟩ : ProgramFields)).andThen fun s =>
    return ⟨← require s.main, s.limits.getD Limits.none⟩

def ofDescription (text : String) : Except DecodeError Program := decodeText ofJson text

end Program

structure TreeFields where
  value : Option Value
  children : Option (Dict (List Tree))

/-- Reads a tree of variables. A name that comes again takes the place of the first one and the
nodes of the last one. -/
def Tree.ofJson : Decoder Tree :=
  recursive fun self =>
    (Decoder.record [
      field "value" Value.ofJson (·.value) fun s v => { s with value := some v },
      field "children"
        (members (fun d name => (array self).andThen fun ts => .ok (Dict.insert d name ts)) [])
        (·.children) fun s d => { s with children := some d }]
      false (⟨none, none⟩ : TreeFields)).andThen fun s =>
      return .node (← require s.value) (← require s.children)

end Orchestration
