import Orchestration.Handlers
import Orchestration.Host
import Orchestration.Limits
import Orchestration.Trace

/-!
# Sessions

A session is the state of one run: the variables, the handler tables, the request
to terminate if one is pending, the output so far, the count of steps, and the
tracer that is told of every event. Each operation answers with a result and the
state after it. A result may be a stop: a fault, which scopes can take, or an
abort, which ends the session.
-/

set_option autoImplicit false

namespace Orchestration

inductive StructuralError where
  /-- A write addressed an element more than one past the end of its vector. -/
  | indexOutOfRange (path : String) (index : UInt64) (length : Nat)
  | scopeUnderflow
  deriving DecidableEq, Repr

def StructuralError.message : StructuralError → String
  | .indexOutOfRange path index length =>
    s!"index {index.toNat} out of range for `{path}` (length {length})"
  | .scopeUnderflow => "cannot pop the root scope"

/-- Ends of a session that no scope can hold up. -/
inductive Abort where
  | exit
  | structural (e : StructuralError)
  | limit (e : LimitError)
  deriving DecidableEq, Repr

inductive Stop where
  | fault (f : Fault)
  | abort (a : Abort)
  deriving DecidableEq, Repr

def Abort.message : Abort → String
  | .exit => "exit requested"
  | .structural e => e.message
  | .limit e => e.message

def Stop.message : Stop → String
  | .fault f => "fault " ++ f.text
  | .abort a => a.message

structure Session (τ : Type) where
  host : Host
  /-- The limits that steps count against; without any, only the depth of scopes is limited. -/
  limits : Option Limits
  steps : Nat
  env : Environment
  /-- The handlers of the current frame, and those of the enclosing ones, innermost first. -/
  handlers : Handlers
  enclosing : List Handlers
  pending : Option Fault
  /-- The calls made to the output, the latest first. -/
  calls : List Call
  output : String
  tracer : τ

abbrev Answer (τ α : Type) := Except Stop α × Session τ

namespace Session

variable {τ : Type}

def start (host : Host) (limits : Option Limits) (tracer : τ) : Session τ where
  host := host
  limits := limits
  steps := 0
  env := .initial
  handlers := .empty
  enclosing := []
  pending := none
  calls := []
  output := ""
  tracer := tracer

def done (s : Session τ) : Answer τ Unit := (.ok (), s)

def fail {α : Type} (s : Session τ) (stop : Stop) : Answer τ α := (.error stop, s)

def andThen (r : Answer τ Unit) (next : Session τ → Answer τ Unit) : Answer τ Unit :=
  match r with
  | (.ok (), s) => next s
  | (.error stop, s) => s.fail stop

def tables (s : Session τ) : List Handlers := s.handlers :: s.enclosing

def weight (w : Activity → Nat) (s : Session τ) : Nat := Handlers.weightOf w s.tables

def stored (s : Session τ) : Nat := s.weight Activity.nodes

def currentScope (s : Session τ) : String := s.env.current.scope

def depth (s : Session τ) : Nat := s.env.depth

def effectiveLimits (s : Session τ) : Limits := s.limits.getD .none

/-! ## Steps -/

def step (s : Session τ) : Answer τ Unit :=
  let s := { s with steps := s.steps + 1 }
  match s.effectiveLimits.stepError? s.steps (s.host.clock s.steps) with
  | some e => s.fail (.abort (.limit e))
  | none => s.done

def stepCount? (s : Session τ) : Option Nat := s.limits.map fun _ => s.steps

/-! ## Termination -/

def killed (s : Session τ) : Bool := s.pending.isSome

/-- Requests termination, in place of an earlier request. -/
def kill (s : Session τ) (f : Fault) : Session τ := { s with pending := some f }

def clearKill (s : Session τ) : Session τ := { s with pending := none }

/-! ## Handlers -/

def install (s : Session τ) (target : Target) (p : Activity) : Session τ :=
  { s with handlers := s.handlers.install s.currentScope target p }

def takeHandler? (s : Session τ) (name : String) (orFallback : Bool) :
    Option (Activity × Session τ) :=
  (s.handlers.takeFault? name orFallback).map fun (p, h) => (p, { s with handlers := h })

def takeCompensation? (s : Session τ) (scope : String) : Option (Activity × Session τ) :=
  (s.handlers.takeCompensation? scope).map fun (p, h) => (p, { s with handlers := h })

def takeVisible? (s : Session τ) (scope : String) : Option (Activity × Session τ) :=
  match Handlers.takeInnermost? scope s.tables with
  | some (p, h :: outer) => some (p, { s with handlers := h, enclosing := outer })
  | _ => none

def hasCompensation (s : Session τ) (scope : String) : Bool :=
  s.tables.any (·.compensations.contains scope)

/-! ## Variables -/

def write (s : Session τ) (p : Path) (v : Value) : Answer τ Unit :=
  let (gap, env) := s.env.write p v
  let s := { s with env := env }
  match gap with
  | some g => s.fail (.abort (.structural (.indexOutOfRange p.text g.index g.length)))
  | none => s.done

/-- The place under a scope's own id where its handlers find what a fault has left. -/
def faultSlot (scope name : String) : Path := (Path.root scope).join ⟨name, 0⟩

/-- The slot that holds the name of the fault being handled. -/
def nameSlot : String := "default"

def deliver (s : Session τ) (f : Fault) : Answer τ Unit :=
  let scope := s.currentScope
  andThen (s.write (faultSlot scope f.name) f.payload) fun s =>
    s.write (faultSlot scope nameSlot) (.str f.name)

/-! ## Output -/

def offer (s : Session τ) (call : Call) : Answer τ Unit :=
  let refusal := s.host.refuses s.calls call
  let s := { s with calls := call :: s.calls }
  match refusal with
  | some f => s.fail (.fault f)
  | none => if s.host.keeps then done { s with output := s.output ++ call.text } else s.done

def offerAll : List Call → Session τ → Answer τ Unit
  | [], s => s.done
  | call :: rest, s => andThen (s.offer call) (offerAll rest)

def lineCalls (parts : List String) : List Call :=
  (parts.map Call.write).intersperse (.push ' ') ++ [.push '\n']

def printLine (s : Session τ) (parts : List String) : Answer τ Unit :=
  offerAll (lineCalls parts) s

/-! ## Scopes -/

variable [Tracer τ]

def observe (s : Session τ) (e : Event) : Session τ :=
  { s with tracer := Tracer.observe s.tracer e }

def pushScope (s : Session τ) (scope : String) : Answer τ Unit :=
  match s.effectiveLimits.depthError? s.depth with
  | some e => s.fail (.abort (.limit e))
  | none =>
    let s := { s with
      env := s.env.push scope
      handlers := .empty
      enclosing := s.tables }
    done (s.observe (.scopePush scope s.depth))

/-- Closes the current frame. Merging hands its bindings and compensations to the enclosing
frame; its other handlers are gone in any case. -/
def popScope (s : Session τ) (merge : Bool) : Answer τ Unit :=
  match s.env.pop? merge with
  | none => s.fail (.abort (.structural .scopeUnderflow))
  | some env =>
    let scope := s.currentScope
    let s := match s.enclosing with
      | [] => { s with env := env }
      | parent :: outer => { s with
          env := env
          handlers := if merge then parent.absorb s.handlers else parent
          enclosing := outer }
    done (s.observe (.scopePop scope merge s.depth))

end Session

end Orchestration
