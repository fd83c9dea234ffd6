/-!
# Durations

Whole seconds below `2^64` and nanoseconds below a second.
-/

set_option autoImplicit false

namespace Orchestration

def nanosPerSecond : Nat := 1000000000

structure Duration where
  secs : UInt64
  nanos : Nat
  nanos_lt : nanos < nanosPerSecond
  deriving DecidableEq, Repr

namespace Duration

def zero : Duration := ⟨0, 0, by decide⟩

instance : Inhabited Duration := ⟨zero⟩

def toNanos (d : Duration) : Nat := d.secs.toNat * nanosPerSecond + d.nanos

/-- A second's worth of nanoseconds is carried into the seconds, which may overflow. -/
def ofParts? (secs nanos : Nat) : Option Duration :=
  let total := secs + nanos / nanosPerSecond
  if total < UInt64.size then
    some ⟨UInt64.ofNat total, nanos % nanosPerSecond, Nat.mod_lt _ (by decide)⟩
  else none

theorem ofParts?_self (d : Duration) : ofParts? d.secs.toNat d.nanos = some d := by
  obtain ⟨secs, nanos, below⟩ := d
  have carry : nanos / nanosPerSecond = 0 := Nat.div_eq_of_lt below
  have small : secs.toNat < UInt64.size := secs.toNat_lt
  simp [ofParts?, carry, small, Nat.mod_eq_of_lt below]

def ofNanos? (nanos : Nat) : Option Duration := ofParts? 0 nanos

/-- `whole` and `part` thousandths, millionths or billionths (`places` digits), without final zeros. -/
def decimalText (whole part places : Nat) : String :=
  let digits := Nat.toDigits 10 part
  let padded := List.replicate (places - digits.length) '0' ++ digits
  let kept := (padded.reverse.dropWhile (· = '0')).reverse
  toString whole ++ if kept = [] then "" else "." ++ String.ofList kept

/-- The duration in the largest of seconds, milliseconds, microseconds and nanoseconds of which
it has at least one. -/
def text (d : Duration) : String :=
  if 0 < d.secs.toNat then decimalText d.secs.toNat d.nanos 9 ++ "s"
  else if 1000000 ≤ d.nanos then decimalText (d.nanos / 1000000) (d.nanos % 1000000) 6 ++ "ms"
  else if 1000 ≤ d.nanos then decimalText (d.nanos / 1000) (d.nanos % 1000) 3 ++ "µs"
  else toString d.nanos ++ "ns"

end Duration

end Orchestration
