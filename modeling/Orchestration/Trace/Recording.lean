import Orchestration.Trace

/-!
# Recordings

A recording keeps the events in their order, at most `limit` of them.
-/

set_option autoImplicit false

namespace Orchestration

structure Recording where
  limit : Option Nat
  events : List Event
  deriving Inhabited

namespace Recording

def empty (limit : Option Nat) : Recording := ⟨limit, []⟩

def full (r : Recording) : Bool :=
  match r.limit with
  | some limit => limit ≤ r.events.length
  | none => false

def record (r : Recording) (e : Event) : Recording :=
  if r.full then r else { r with events := r.events ++ [e] }

instance : Tracer Recording := ⟨record⟩

def count (r : Recording) (k : EventKind) : Nat := r.events.countP (·.kind = k)

end Recording

end Orchestration
