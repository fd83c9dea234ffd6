import Orchestration.Dict
import Orchestration.Activity

/-!
# Handler tables

The handlers and compensations that belong to one frame. Taking a handler removes
it from the table, so that nothing installed runs twice. Besides its own
compensation a frame holds those that its finished children have left it.
-/

set_option autoImplicit false

namespace Orchestration

structure Handlers where
  faults : Dict Activity
  fallback : Option Activity
  compensations : Dict Activity
  deriving Inhabited

namespace Handlers

def empty : Handlers := ⟨[], none, []⟩

def install (h : Handlers) (scope : String) : Target → Activity → Handlers
  | .fault name, p => { h with faults := h.faults.insert name p }
  | .default, p => { h with fallback := some p }
  | .this, p => { h with compensations := h.compensations.insert scope p }

/-- Takes the handler of a fault name, or else the fallback if that may stand in. -/
def takeFault? (h : Handlers) (name : String) (orFallback : Bool) : Option (Activity × Handlers) :=
  match h.faults.get? name with
  | some p => some (p, { h with faults := h.faults.erase name })
  | none =>
    if orFallback then h.fallback.map fun p => (p, { h with fallback := none }) else none

def takeCompensation? (h : Handlers) (scope : String) : Option (Activity × Handlers) :=
  (h.compensations.get? scope).map fun p =>
    (p, { h with compensations := h.compensations.erase scope })

def takeInnermost? (scope : String) : List Handlers → Option (Activity × List Handlers)
  | [] => none
  | h :: outer =>
    match h.takeCompensation? scope with
    | some (p, h) => some (p, h :: outer)
    | none => (takeInnermost? scope outer).map fun (p, outer) => (p, h :: outer)

/-- What a closed frame leaves to the one around it: its compensations. -/
def absorb (h closed : Handlers) : Handlers :=
  { h with compensations := h.compensations.merge closed.compensations }

def weightIn (weight : Activity → Nat) : Dict Activity → Nat
  | [] => 0
  | (_, p) :: d => weight p + weightIn weight d

def weight (w : Activity → Nat) (h : Handlers) : Nat :=
  weightIn w h.faults + (h.fallback.map w).getD 0 + weightIn w h.compensations

def weightOf (w : Activity → Nat) : List Handlers → Nat
  | [] => 0
  | h :: hs => h.weight w + weightOf w hs

end Handlers

end Orchestration
