import Orchestration.Double

/-!
# Shortest decimal text

The real numbers that round to a finite double form an interval around it, ends
included exactly when its significand is even. The shortest decimal is the point
nearest to the double on the coarsest grid of powers of ten that has a point in
that interval. A `Layout` says how such a decimal is written.
-/

set_option autoImplicit false

namespace Orchestration.Double

/-- Where a decimal goes that lies midway between two points of the grid. -/
inductive Tie where
  | up
  | even
  deriving DecidableEq, Repr

/-- The decimal `digits · 10^exponent`. -/
structure Decimal where
  digits : Nat
  exponent : Int
  deriving DecidableEq, Repr

/-- The interval of reals that round to `m · 2^q`, as `low`, `mid` and `high` in units of `2^(q-2)`. -/
structure Interval where
  low : Nat
  mid : Nat
  high : Nat
  closed : Bool

def interval (m : Nat) (q : Int) : Interval where
  low := if m = Nat.pow 2 52 ∧ q > -1074 then 4 * m - 1 else 4 * m - 2
  mid := 4 * m
  high := 4 * m + 2
  closed := m % 2 = 0

/-- The grid of multiples of `step`, in the unit in which `2^(q-2)` is `unit`. -/
structure Grid where
  unit : Nat
  step : Nat

def grid (q g : Int) : Grid where
  unit := Nat.pow 2 (q - 2).toNat * Nat.pow 10 (-g).toNat
  step := Nat.pow 10 g.toNat * Nat.pow 2 (2 - q).toNat

def Interval.holds (i : Interval) (g : Grid) (n : Nat) : Bool :=
  if i.closed then i.low * g.unit ≤ n * g.step && n * g.step ≤ i.high * g.unit
  else i.low * g.unit < n * g.step && n * g.step < i.high * g.unit

def Interval.nearest? (i : Interval) (g : Grid) (tie : Tie) : Option Nat :=
  let below := i.mid * g.unit / g.step
  let twice := 2 * (i.mid * g.unit % g.step)
  let raise : Bool := g.step < twice ∨ (g.step = twice ∧ (tie = .up ∨ below % 2 = 1))
  match i.holds g below && below ≠ 0, i.holds g (below + 1) with
  | true, true => some (if raise then below + 1 else below)
  | true, false => some below
  | false, true => some (below + 1)
  | false, false => none

/-- A power of ten above every real that rounds to `m · 2^q`. -/
def coarsest (m : Nat) (q : Int) : Int := (q + Nat.log2 m + 2) * 30103 / 100000 + 2

def refine (i : Interval) (q : Int) (tie : Tie) : Nat → Int → Decimal
  | 0, g => ⟨i.mid, g⟩
  | grids + 1, g =>
    match i.nearest? (grid q g) tie with
    | some n => ⟨n, g⟩
    | none => refine i q tie grids (g - 1)

/-- Seventeen digits tell any two doubles apart, so two dozen grids from the coarsest are enough. -/
def shortest (m : Nat) (q : Int) (tie : Tie) : Decimal :=
  if m = 0 then ⟨0, 0⟩ else refine (interval m q) q tie 24 (coarsest m q)

structure Layout where
  tie : Tie
  /-- Whether a decimal whose first digit stands at this power of ten is written without an exponent. -/
  positional : Int → Bool
  pointZero : Bool

namespace Layout

def withPoint (layout : Layout) (digits : List Char) (places : Int) : List Char :=
  if places ≤ 0 then "0.".toList ++ List.replicate (-places).toNat '0' ++ digits
  else if digits.length ≤ places.toNat then
    digits ++ List.replicate (places.toNat - digits.length) '0' ++
      if layout.pointZero then ".0".toList else []
  else digits.take places.toNat ++ '.' :: digits.drop places.toNat

def withExponent (digits : List Char) (exponent : Int) : List Char :=
  let mark := if exponent < 0 then "e-".toList else "e+".toList
  let fraction := if digits.length ≤ 1 then [] else '.' :: digits.drop 1
  digits.take 1 ++ fraction ++ mark ++ Nat.toDigits 10 exponent.natAbs

def write (layout : Layout) (m : Nat) (q : Int) : List Char :=
  let d := shortest m q layout.tie
  let digits := Nat.toDigits 10 d.digits
  let places : Int := d.exponent + digits.length
  if layout.positional (places - 1) then layout.withPoint digits places
  else withExponent digits (places - 1)

end Layout

/-- Text is positional whatever the size, and a whole number stands without a point. -/
def textLayout : Layout where
  tie := .up
  positional _ := true
  pointZero := false

def signText (sign : Bool) : String := if sign then "-" else ""

def text (x : Double) : String :=
  match x.reading with
  | .nan => "NaN"
  | .infinite sign => signText sign ++ "inf"
  | .finite sign m q => signText sign ++ String.ofList (textLayout.write m q)

example : text ⟨0x0000000000000001⟩ = "0." ++ String.ofList (List.replicate 323 '0') ++ "5" := by
  decide +kernel
example : text ⟨0x444b1ae4d6e2ef50⟩ = "1000000000000000000000" := by decide +kernel
example : text ⟨0x8000000000000000⟩ = "-0" := by decide +kernel

end Orchestration.Double
