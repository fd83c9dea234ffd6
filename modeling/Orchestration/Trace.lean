/-!
# Trace events

Every transition in the life of a scope is an event. A tracer is a state that
takes in the events of a session one by one; the session never looks at it.
-/

set_option autoImplicit false

namespace Orchestration

inductive Event where
  /-- A frame was opened; `depth` counts the open scopes from then on. -/
  | scopePush (scope : String) (depth : Nat)
  | scopePop (scope : String) (merged : Bool) (depth : Nat)
  /-- An activity of the scope returned while termination was pending. -/
  | killObserved (scope fault : String)
  | compensationStart (scope : String)
  | compensationEnd (scope : String)
  | faultDispatch (scope fault : String)
  /-- A fault found no handler and is held until the scope ends. -/
  | faultCaptured (scope fault : String)
  | faultRaised (scope fault : String)
  deriving DecidableEq, Repr

inductive EventKind where
  | scopePush
  | scopePop
  | killObserved
  | compensationStart
  | compensationEnd
  | faultDispatch
  | faultCaptured
  | faultRaised
  deriving DecidableEq, Repr

namespace EventKind

def all : List EventKind :=
  [.scopePush, .scopePop, .killObserved, .compensationStart, .compensationEnd, .faultDispatch,
    .faultCaptured, .faultRaised]

def name : EventKind → String
  | .scopePush => "ScopePush"
  | .scopePop => "ScopePop"
  | .killObserved => "KillObserved"
  | .compensationStart => "CompensationStart"
  | .compensationEnd => "CompensationEnd"
  | .faultDispatch => "FaultDispatch"
  | .faultCaptured => "FaultCaptured"
  | .faultRaised => "FaultRaised"

end EventKind

def Event.kind : Event → EventKind
  | .scopePush .. => .scopePush
  | .scopePop .. => .scopePop
  | .killObserved .. => .killObserved
  | .compensationStart .. => .compensationStart
  | .compensationEnd .. => .compensationEnd
  | .faultDispatch .. => .faultDispatch
  | .faultCaptured .. => .faultCaptured
  | .faultRaised .. => .faultRaised

class Tracer (τ : Type) where
  observe : τ → Event → τ

instance : Tracer Unit := ⟨fun _ _ => ()⟩

end Orchestration
