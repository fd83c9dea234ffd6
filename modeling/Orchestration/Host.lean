import Orchestration.Duration
import Orchestration.Fault

/-!
# Hosts

What a session meets outside itself: the output that it prints to and the clock.
The output takes a text or a mark between texts with each call and may refuse a call
with a fault. Whether it does depends on the calls made to it so far and on nothing
else.
-/

set_option autoImplicit false

namespace Orchestration

inductive Call where
  | write (text : String)
  /-- To take the mark that separates two texts or ends a line. -/
  | push (mark : Char)
  deriving DecidableEq, Repr

def Call.text : Call → String
  | .write text => text
  | .push mark => mark.toString

structure Host where
  /-- The answer to a call, from the earlier calls (the latest first) and the call itself. -/
  refuses : List Call → Call → Option Fault
  /-- Whether what the calls add that are not refused is kept. -/
  keeps : Bool
  /-- The time since the start of the session at its n-th step. -/
  clock : Nat → Duration

namespace Host

/-- A clock that advances by the same number of nanoseconds with every step, after a first wait. -/
def steadyClock (wait nanos : Nat) (steps : Nat) : Duration :=
  (Duration.ofNanos? (wait + nanos * steps)).getD .zero

/-- The time that a step is reckoned to take, so that a run depends on nothing but its inputs. -/
def stepNanos : Nat := 100

def reliable (clock : Nat → Duration) : Host := ⟨fun _ _ => none, true, clock⟩

def standard : Host := reliable (steadyClock 0 stepNanos)

def callFault (n : Nat) : Fault := ⟨Fault.outputName, .str s!"call {n}"⟩

/-- A host whose output fails at the calls of the given numbers, counted from 0. -/
def failingAt (fails : Nat → Bool) (keeps : Bool) (clock : Nat → Duration) : Host where
  refuses earlier _ :=
    if fails earlier.length then some (callFault earlier.length) else none
  keeps := keeps
  clock := clock

end Host

end Orchestration
