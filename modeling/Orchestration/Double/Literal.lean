import Orchestration.Double

/-!
# Reading decimal literals

A literal is a sign, the digits before and after the point, and a power of ten. The
digits that fit into 64 bits are read as a whole number, which is rounded once; that
number is then multiplied or divided by the rounded power of ten, which rounds once
more. A literal of many digits may therefore end up beside the nearest double.
Digits after the first one that does not fit only count their places.
-/

set_option autoImplicit false

namespace Orchestration.Double

/-- Reads digits while the number stays below `2^64`. Answers the number, the count of digits
read and the digits left over. -/
def readDigits (start : Nat) : List Char → Nat × Nat × List Char
  | [] => (start, 0, [])
  | c :: cs =>
    let next := start * 10 + (c.toNat - '0'.toNat)
    if next < UInt64.size then
      let (n, count, rest) := readDigits next cs
      (n, count + 1, rest)
    else (start, 0, c :: cs)

def significand (whole fraction : List Char) : Nat × Int :=
  let (n, _, skipped) := readDigits 0 whole
  let (n, count, _) := readDigits n fraction
  (n, (skipped.length : Int) - count)

def maxPower : Nat := 308

def product (x : Double) (sign : Bool) (power : Double) : Option Double :=
  let a := x.magnitude
  let b := power.magnitude
  ofRatio? sign (a.1 * b.1) (a.2 * b.2)

def quotient (x : Double) (sign : Bool) (power : Double) : Option Double :=
  let a := x.magnitude
  let b := power.magnitude
  ofRatio? sign (a.1 * b.2) (a.2 * b.1)

def powerOfTen? (n : Nat) : Option Double := ofRatio? false (Nat.pow 10 n) 1

/-- `x · 10^e`, by one multiplication, or by divisions by at most `10^308` each. -/
def scale (sign : Bool) (x : Double) (e : Int) : Option Double :=
  if x.isZero then some x
  else if 0 ≤ e then
    if e ≤ maxPower then (powerOfTen? e.toNat).bind (x.product sign) else none
  else down (-e).toNat x
where
  down (n : Nat) (x : Double) : Option Double :=
    if n ≤ maxPower then (powerOfTen? n).bind (x.quotient sign)
    else if x.isZero then some x
    else (powerOfTen? maxPower).bind (x.quotient sign) >>= down (n - maxPower)
  termination_by n
  decreasing_by simp_all [maxPower]; omega

def ofLiteral? (sign : Bool) (whole fraction : List Char) (exponent : Int) : Option Double :=
  let (n, e) := significand whole fraction
  (ofRatio? sign n 1).bind fun x => scale sign x (e + exponent)

end Orchestration.Double
