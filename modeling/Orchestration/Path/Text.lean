import Orchestration.Path

/-!
# Reading paths

A text is a path when each of its dot-separated parts is a non-empty name without
brackets, optionally followed by `[n]` with `n` a decimal number below `2^64`, a
plus sign in front of its digits allowed. The first part that is not gives the
reason for refusing the text.
-/

set_option autoImplicit false

namespace Orchestration

inductive PathFlaw where
  | unterminatedIndex
  | indexNotNumber
  | emptyName
  | unbalancedBrackets
  deriving DecidableEq, Repr

def PathFlaw.message : PathFlaw → String
  | .unterminatedIndex => "unterminated index"
  | .indexNotNumber => "index is not a number"
  | .emptyName => "empty segment name"
  | .unbalancedBrackets => "unbalanced brackets"

structure PathError where
  text : String
  flaw : PathFlaw
  deriving DecidableEq, Repr

def PathError.message (e : PathError) : String :=
  s!"invalid variable path `{e.text}`: {e.flaw.message}"

namespace Path

/-- The parts of a text between its dots; a text without dots is one part. -/
def parts : List Char → List (List Char)
  | [] => [[]]
  | c :: cs =>
    if c = '.' then [] :: parts cs
    else match parts cs with
      | part :: others => (c :: part) :: others
      | [] => [[c]]

def beforeClosing? : List Char → Option (List Char)
  | [] => none
  | [c] => if c = ']' then some [] else none
  | c :: cs => (beforeClosing? cs).map (c :: ·)

def readIndex? (cs : List Char) : Option UInt64 :=
  let digits := match cs with
    | '+' :: rest => rest
    | _ => cs
  if digits ≠ [] ∧ digits.all Char.isDigit then
    let n := Nat.ofDigitChars 10 digits 0
    if n < UInt64.size then some (UInt64.ofNat n) else none
  else none

def readName (name : List Char) (index : UInt64) : Except PathFlaw Segment :=
  if name = [] then .error .emptyName
  else if ']' ∈ name then .error .unbalancedBrackets
  else .ok ⟨String.ofList name, index⟩

def readSegment (part : List Char) : Except PathFlaw Segment :=
  let name := part.takeWhile (· ≠ '[')
  match part.dropWhile (· ≠ '[') with
  | [] => readName name 0
  | _ :: bracketed =>
    match beforeClosing? bracketed with
    | none => .error .unterminatedIndex
    | some digits =>
      match readIndex? digits with
      | none => .error .indexNotNumber
      | some index => readName name index

def readSegments : List (List Char) → Except PathFlaw (List Segment)
  | [] => .ok []
  | part :: others => do
    let s ← readSegment part
    let rest ← readSegments others
    pure (s :: rest)

def read (cs : List Char) : Except PathFlaw Path :=
  match parts cs with
  | [] => .error .emptyName
  | part :: others => do
    let s ← readSegment part
    let rest ← readSegments others
    pure ⟨s, rest⟩

def ofText (text : String) : Except PathError Path :=
  match read text.toList with
  | .ok p => .ok p
  | .error flaw => .error ⟨text, flaw⟩

example : (ofText "order.items[2].price").toOption =
    some ⟨⟨"order", 0⟩, [⟨"items", 2⟩, ⟨"price", 0⟩]⟩ := by decide
example : ["", "a..b", "a[", "a[x]", "a]b", "[1]", "a[+]", "a[1]b"].map (ofText · |>.isOk) =
    List.replicate 8 false := by decide

end Path

end Orchestration
