import Orchestration.Double.Literal
import Orchestration.Double.Shortest
import Orchestration.Json

/-!
# Number literals

The parts of a JSON number and their readings. A whole number is read from a
literal of digits alone; `-0` is no whole number.
-/

set_option autoImplicit false

namespace Orchestration.Json

structure Numeral where
  negative : Bool
  whole : List Char
  fraction : Option (List Char)
  exponent : Option Int
  deriving DecidableEq, Repr

namespace Numeral

def spanDigits (cs : List Char) : List Char × List Char :=
  (cs.takeWhile Char.isDigit, cs.dropWhile Char.isDigit)

/-- Digits without a needless zero at the front. -/
def whole? (cs : List Char) : Option (List Char × List Char) :=
  match spanDigits cs with
  | ([], _) => none
  | ('0' :: _ :: _, _) => none
  | (digits, rest) => some (digits, rest)

def fraction? (cs : List Char) : Option (Option (List Char) × List Char) :=
  match cs with
  | '.' :: rest =>
    match spanDigits rest with
    | ([], _) => none
    | (digits, rest) => some (some digits, rest)
  | _ => some (none, cs)

def exponentSign (cs : List Char) : Bool × List Char :=
  match cs with
  | '-' :: rest => (true, rest)
  | '+' :: rest => (false, rest)
  | _ => (false, cs)

def exponent? (cs : List Char) : Option (Option Int × List Char) :=
  match cs with
  | c :: rest =>
    if c = 'e' ∨ c = 'E' then
      let (negative, rest) := exponentSign rest
      match spanDigits rest with
      | ([], _) => none
      | (digits, rest) =>
        let n : Int := Nat.ofDigitChars 10 digits 0
        some (some (if negative then -n else n), rest)
    else some (none, cs)
  | [] => some (none, [])

def ofChars? (cs : List Char) : Option Numeral :=
  let (negative, cs) := match cs with
    | '-' :: rest => (true, rest)
    | _ => (false, cs)
  match whole? cs with
  | none => none
  | some (whole, cs) =>
    match fraction? cs with
    | none => none
    | some (fraction, cs) =>
      match exponent? cs with
      | some (exponent, []) => some ⟨negative, whole, fraction, exponent⟩
      | _ => none

def nat? (n : Numeral) : Option Nat :=
  if n.negative = false ∧ n.fraction = none ∧ n.exponent = none then
    some (Nat.ofDigitChars 10 n.whole 0)
  else none

def int? (n : Numeral) : Option Int :=
  if n.negative ∧ n.fraction = none ∧ n.exponent = none then
    let magnitude := Nat.ofDigitChars 10 n.whole 0
    if magnitude = 0 then none else some (-magnitude)
  else n.nat?.map Int.ofNat

def double? (n : Numeral) : Option Double :=
  Double.ofLiteral? n.negative n.whole (n.fraction.getD []) (n.exponent.getD 0)

end Numeral

/-- Numbers have a point or an exponent, which is used below `10^-5` and from `10^16` on. -/
def numberLayout : Double.Layout where
  tie := .even
  positional e := -5 ≤ e && e < 16
  pointZero := true

/-- The number for a double; there is none for infinities and NaNs. -/
def double (x : Double) : Json :=
  match x.reading with
  | .finite sign m q =>
    .number (if sign then '-' :: numberLayout.write m q else numberLayout.write m q)
  | _ => .null

end Orchestration.Json
