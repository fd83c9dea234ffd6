import Orchestration.Json.Numeral
import Orchestration.Json.Printer
import Orchestration.Program

/-!
# Writing descriptions

The JSON description of a program. Every field is written, those that a reader may
do without included. Each case of a type is an object of one member, or just its
name if it has no content.
-/

set_option autoImplicit false

namespace Orchestration

def Value.toJson : Value → Json
  | .void => .text "void"
  | .bool b => .case "bool" (.bool b)
  | .int n => .case "int" (.int n.toInt)
  | .double x => .case "double" (.double x)
  | .str s => .case "str" (.text s)

def Path.toJson (p : Path) : Json := .text p.text

namespace Expr

mutual

def toJson : Expr → Json
  | .literal v => .case "literal" v.toJson
  | .path p => .case "path" p.toJson
  | .concat parts => .case "concat" (.arr (allToJson parts))

def allToJson : List Expr → List Json
  | [] => []
  | e :: rest => e.toJson :: allToJson rest

end

def optionToJson : Option Expr → Json
  | none => .null
  | some e => e.toJson

end Expr

def Target.toJson : Target → Json
  | .fault name => .case "fault" (.text name)
  | .default => .text "default"
  | .this => .text "this"

namespace Activity

def scopeToJson (id : String) (body : Json) (autoPop : Bool) : Json :=
  .record [("id", .text id), ("body", body), ("auto_pop", .bool autoPop)]

mutual

def toJson : Activity → Json
  | .nil => .text "nil"
  | .sequence ps => .case "sequence" (.arr (allToJson ps))
  | .parallel ps => .case "parallel" (.arr (allToJson ps))
  | .assign path value => .case "assign" (.record [("path", path.toJson), ("value", value.toJson)])
  | .print parts => .case "print" (.arr (Expr.allToJson parts))
  | .throw fault payload =>
    .case "throw" (.record [("fault", .text fault), ("payload", Expr.optionToJson payload)])
  | .kill fault payload =>
    .case "kill" (.record [("fault", .text fault), ("payload", Expr.optionToJson payload)])
  | .install handlers => .case "install" (.arr (handlersToJson handlers))
  | .compensate id => .case "compensate" (.text id)
  | .scope id body autoPop => .case "scope" (scopeToJson id body.toJson autoPop)
  | .exit => .text "exit"

def allToJson : List Activity → List Json
  | [] => []
  | p :: rest => p.toJson :: allToJson rest

def handlersToJson : List (Target × Activity) → List Json
  | [] => []
  | (t, p) :: rest =>
    .record [("target", t.toJson), ("handler", p.toJson)] :: handlersToJson rest

end

end Activity

def ScopeDefinition.toJson (d : ScopeDefinition) : Json :=
  Activity.scopeToJson d.id d.body.toJson d.autoPop

def Duration.toJson (d : Duration) : Json :=
  .record [("secs", .nat d.secs.toNat), ("nanos", .nat d.nanos)]

namespace Limits

def wordToJson : Option UInt64 → Json
  | Option.none => .null
  | some n => .nat n.toNat

def durationToJson : Option Duration → Json
  | Option.none => .null
  | some d => d.toJson

def toJson (l : Limits) : Json :=
  .record [("max_scope_depth", wordToJson l.maxScopeDepth),
    ("max_operations", wordToJson l.maxOperations),
    ("max_duration", durationToJson l.maxDuration)]

end Limits

namespace Program

def toJson (p : Program) : Json :=
  .record [("main", p.main.toJson), ("limits", p.limits.toJson)]

def description (p : Program) : String := p.toJson.pretty

end Program

namespace Tree

mutual

def toJson : Tree → Json
  | .node v children =>
    .record [("value", v.toJson), ("children", .obj (childrenToJson children))]

def allToJson : List Tree → List Json
  | [] => []
  | t :: rest => t.toJson :: allToJson rest

def childrenToJson : List (String × List Tree) → List (Option String × Json)
  | [] => []
  | (name, nodes) :: rest => (some name, .arr (allToJson nodes)) :: childrenToJson rest

end

end Tree

end Orchestration
