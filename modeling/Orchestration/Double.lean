/-!
# Double-precision numbers

A `Double` is its 64-bit pattern. A finite one is `(-1)^s · m · 2^q` with `m < 2^53`
and `q ≥ -1074`. Rounding takes a ratio of natural numbers to the nearest such
number, a tie to the even `m`, so that all arithmetic here is exact.
-/

set_option autoImplicit false

namespace Orchestration

structure Double where
  bits : UInt64
  deriving DecidableEq, Repr, Inhabited

namespace Double

inductive Reading where
  | nan
  | infinite (negative : Bool)
  | finite (negative : Bool) (m : Nat) (q : Int)
  deriving DecidableEq, Repr

def negative (x : Double) : Bool := x.bits.toNat / Nat.pow 2 63 = 1

def exponentField (x : Double) : Nat := x.bits.toNat / Nat.pow 2 52 % Nat.pow 2 11

def fraction (x : Double) : Nat := x.bits.toNat % Nat.pow 2 52

def reading (x : Double) : Reading :=
  if x.exponentField = 2047 then
    if x.fraction = 0 then .infinite x.negative else .nan
  else if x.exponentField = 0 then .finite x.negative x.fraction (-1074)
  else .finite x.negative (Nat.pow 2 52 + x.fraction) (x.exponentField - 1075)

def isNaN (x : Double) : Bool := x.reading = .nan

def isZero (x : Double) : Bool := x.exponentField = 0 ∧ x.fraction = 0

/-- Equality of numbers: no NaN equals anything, and the two zeros are equal. -/
def agrees (x y : Double) : Bool :=
  !x.isNaN && !y.isNaN && (x = y || (x.isZero && y.isZero))

/-- The pattern of magnitude `m · 2^q` for `m < 2^53`, where `m < 2^52` only at `q = -1074`. -/
def pack (sign : Bool) (m : Nat) (q : Int) : Double :=
  let low := if m < Nat.pow 2 52 then m
    else (q + 1075).toNat * Nat.pow 2 52 + (m - Nat.pow 2 52)
  ⟨UInt64.ofNat ((if sign then Nat.pow 2 63 else 0) + low)⟩

def ofBits (bits : UInt64) : Double := ⟨bits⟩

/-- `num / den` to the nearest whole number, a tie to the even one. -/
def divideToEven (num den : Nat) : Nat :=
  let d := num / den
  let r := num % den
  if 2 * r < den ∨ (2 * r = den ∧ d % 2 = 0) then d else d + 1

/-- The exponent `q` at which `num / den` has a 53-bit significand, or `-1074` if that is larger. -/
def binaryExponent (num den : Nat) : Int :=
  let guess : Int := (Nat.log2 num : Int) - Nat.log2 den - 52
  -- `num / den` lies in `[2^(guess+51), 2^(guess+53))`
  let small := if 0 ≤ guess + 52 then num < den * Nat.pow 2 (guess + 52).toNat
    else num * Nat.pow 2 (-(guess + 52)).toNat < den
  max (if small then guess - 1 else guess) (-1074)

/-- The number nearest to `num / den`, a tie going to the even significand; none if that
number is beyond the largest finite one. -/
def ofRatio? (sign : Bool) (num den : Nat) : Option Double :=
  if num = 0 then some (pack sign 0 (-1074)) else
    let q := binaryExponent num den
    let m := if 0 ≤ q then divideToEven num (den * Nat.pow 2 q.toNat)
      else divideToEven (num * Nat.pow 2 (-q).toNat) den
    let (m, q) := if m = Nat.pow 2 53 then (Nat.pow 2 52, q + 1) else (m, q)
    if q ≤ 971 then some (pack sign m q) else none

def ratio (m : Nat) (q : Int) : Nat × Nat :=
  if 0 ≤ q then (m * Nat.pow 2 q.toNat, 1) else (m, Nat.pow 2 (-q).toNat)

/-- The magnitude of `x` as a ratio; the patterns of infinities and NaNs read as 0. -/
def magnitude (x : Double) : Nat × Nat :=
  match x.reading with
  | .finite _ m q => ratio m q
  | _ => (0, 1)

def negate (x : Double) : Double := ⟨x.bits ^^^ 0x8000000000000000⟩

example : (ofRatio? false 1 10).map bits = some 0x3fb999999999999a := by decide
example : (ofRatio? false (Nat.pow 2 53 + 1) 1).map bits = some 0x4340000000000000 := by decide

end Double

end Orchestration
