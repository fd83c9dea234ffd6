import Orchestration.Description.Read
import Orchestration.FileSystem
import Orchestration.Trace.Log
import Orchestration.Trace.Profile

/-!
# The command line

A command names one program file and may ask for a trace of the run or for a
profile, but not for both. The program prints to the standard output; the trace, the
profile and the summary of the run go to the standard error.
-/

set_option autoImplicit false

namespace Orchestration

namespace CommandLine

inductive Mode where
  | plain
  | trace
  | profile
  deriving DecidableEq, Repr

structure Command where
  file : String
  mode : Mode
  deriving DecidableEq, Repr

structure Finish where
  code : Nat
  stdout : String
  stderr : String
  deriving DecidableEq, Repr

def option? : String → Option Mode
  | "--trace" => some .trace
  | "--profile" => some .profile
  | _ => none

def parseFrom : Option String → Mode → List String → Option Command
  | file, mode, [] => file.map (⟨·, mode⟩)
  | file, mode, arg :: rest =>
    match option? arg with
    | some asked =>
      if mode = .plain ∨ mode = asked then parseFrom file asked rest else none
    | none =>
      if arg.startsWith "--" then none
      else match file with
        | none => parseFrom (some arg) mode rest
        | some _ => none

def parse (args : List String) : Option Command := parseFrom none .plain args

def usage : String := "usage: sagaflow <program.json> [--trace | --profile]"

def refuse (text : String) : Finish := ⟨1, "", text ++ "\n"⟩

/-- The summary of a run. The fault that terminated it is told only with a trace. -/
def summary (mode : Mode) (elapsed : Duration) : Except Failure Outcome → String
  | .ok (.terminated f) =>
    if mode = .trace then "terminated by " ++ f.text ++ " after: " ++ elapsed.text
    else "completed after: " ++ elapsed.text
  | .ok _ => "completed after: " ++ elapsed.text
  | .error e => "error after: " ++ elapsed.text ++ "\n" ++ e.message

def exitCode : Except Failure Outcome → Nat
  | .ok _ => 0
  | .error _ => 1

structure Performance where
  result : Except Failure Outcome
  output : String
  traced : String

def perform (p : Program) (mode : Mode) (host : Host) : Performance :=
  match mode with
  | .plain =>
    let (result, s) := p.run host ()
    ⟨result, s.output, ""⟩
  | .trace =>
    let (result, s) := p.run host (Log.empty none)
    ⟨result, s.output, s.tracer.text⟩
  | .profile =>
    let (result, s) := p.run host Profile.empty
    ⟨result, s.output, s.tracer.report.text⟩

def Performance.finish (p : Performance) (mode : Mode) (elapsed : Duration) : Finish :=
  ⟨exitCode p.result, p.output, p.traced ++ summary mode elapsed p.result ++ "\n"⟩

def carryOut (c : Command) (contents : Except FileError String) (host : Host) :
    Except Finish Performance :=
  match contents with
  | .error e => .error (refuse ("error reading " ++ c.file ++ ": " ++ e.message))
  | .ok text =>
    match Program.ofDescription text with
    | .error e => .error (refuse ("error:\n" ++ invalidProgram e.message))
    | .ok p => .ok (perform p c.mode host)

end CommandLine

end Orchestration
