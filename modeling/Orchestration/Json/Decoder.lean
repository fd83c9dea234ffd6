import Orchestration.Json.Reader
import Orchestration.Path.Text

/-!
# Decoding JSON values

A decoder reads a value of some type from a JSON tree, with room for a number of
nested arrays and objects. Members and items are read in the order of the text, so
the first error of the text is the one reported.

Two shapes recur. A *case* is the name of the case, for a case without content, or
an object whose one member is the case with its content. A *record* is an object, in
which members that the record does not know are passed over, or an array of its
fields in order.
-/

set_option autoImplicit false

namespace Orchestration.Json

inductive DecodeError where
  | malformed
  | path (e : PathError)
  deriving DecidableEq, Repr

def DecodeError.message : DecodeError → String
  | .malformed => "the description does not have the form of a program"
  | .path e => e.message

abbrev Decoder (α : Type) := Nat → Json → Except DecodeError α

def maxNesting : Nat := 127

namespace Decoder

variable {α β σ : Type}

def fail : Decoder α := fun _ _ => .error .malformed

def andThen (d : Decoder α) (f : α → Except DecodeError β) : Decoder β :=
  fun room j => d room j >>= f

def require (o : Option α) : Except DecodeError α :=
  match o with
  | some a => .ok a
  | none => .error .malformed

def string : Decoder String
  | _, .str (some s) => .ok s
  | _, _ => .error .malformed

def bool : Decoder Bool
  | _, .bool b => .ok b
  | _, _ => .error .malformed

def numeral : Decoder Numeral
  | _, .number literal => require (Numeral.ofChars? literal)
  | _, _ => .error .malformed

def natBelow (bound : Nat) : Decoder Nat :=
  numeral.andThen fun n => require (n.nat?.filter (· < bound))

def word64 : Decoder UInt64 := (natBelow UInt64.size).andThen fun n => .ok (UInt64.ofNat n)

def int64 : Decoder Int64 :=
  numeral.andThen fun n =>
    let i := n.int?.filter fun i => Int64.minValue.toInt ≤ i ∧ i ≤ Int64.maxValue.toInt
    require (i.map Int64.ofInt)

def double : Decoder Double := numeral.andThen fun n => require n.double?

def path : Decoder Path :=
  string.andThen fun s =>
    match Path.ofText s with
    | .ok p => .ok p
    | .error e => .error (.path e)

def nullable (d : Decoder α) : Decoder (Option α)
  | _, .null => .ok none
  | room, j => (d room j).map some

def readAll (d : Json → Except DecodeError α) : List Json → Except DecodeError (List α)
  | [] => .ok []
  | j :: rest => do
    let a ← d j
    let as ← readAll d rest
    pure (a :: as)

def array (d : Decoder α) : Decoder (List α)
  | room + 1, .arr items => readAll (d room) items
  | _, _ => .error .malformed

def readMembers (step : σ → String → Json → Except DecodeError σ) :
    List (Option String × Json) → σ → Except DecodeError σ
  | [], s => .ok s
  | (some name, j) :: rest, s => do readMembers step rest (← step s name j)
  | (none, _) :: _, _ => .error .malformed

def members (step : σ → String → Decoder σ) (start : σ) : Decoder σ
  | room + 1, .obj ms => readMembers (fun s name j => step s name room j) ms start
  | _, _ => .error .malformed

/-- A case by its name: one of `units`, or one of `contents` with its content. -/
def case (units : String → Option α) (contents : String → Option (Decoder α)) : Decoder α
  | _, .str (some name) => require (units name)
  | room + 1, .obj ((some name, content) :: rest) => do
    let a ← match units name, content with
      | some a, .null => .ok a
      | some _, _ => .error .malformed
      | none, _ =>
        match contents name with
        | some d => d room content
        | none => .error .malformed
    if rest.isEmpty then pure a else .error .malformed
  | _, _ => .error .malformed

/-- A field of a record that is being read: whether it has been read already, and how to. -/
structure Field (σ : Type) where
  name : String
  filled : σ → Bool
  read : Decoder (σ → σ)

def field (name : String) (d : Decoder α) (slot : σ → Option α) (fill : σ → α → σ) : Field σ where
  name := name
  filled s := (slot s).isSome
  read := d.andThen fun a => .ok fun s => fill s a

/-- Reads one member of a record. Members that are not known must have a value of some sort,
unless the record is closed. -/
def member (fields : List (Field σ)) (closed : Bool) (s : σ) (name : String) : Decoder σ :=
  fun room j =>
    match fields.find? (·.name = name) with
    | some f => if f.filled s then .error .malformed else (f.read room j).map (· s)
    | none => if !closed && j.complete then .ok s else .error .malformed

def readItems (room : Nat) : List (Field σ) → List Json → σ → Except DecodeError σ
  | _, [], s => .ok s
  | f :: fields, j :: rest, s => do
    let fill ← f.read room j
    readItems room fields rest (fill s)
  | [], _ :: _, _ => .error .malformed

def record (fields : List (Field σ)) (closed : Bool) (start : σ) : Decoder σ
  | room + 1, .arr items => readItems room fields items start
  | room, j => members (member fields closed) start room j

/-- A decoder that decodes parts of its value by itself. Every part lies deeper in the tree, so
there is room for all levels but the last. -/
def nested (body : Decoder α → Decoder α) : Nat → Decoder α
  | 0 => fail
  | levels + 1 => body (nested body levels)

def recursive (body : Decoder α → Decoder α) : Decoder α :=
  fun room j => nested body (room + 1) room j

end Decoder

def decodeText {α : Type} (d : Decoder α) (text : String) : Except DecodeError α := do
  let doc := Document.ofText text
  let a ← d maxNesting doc.value
  if doc.ends then pure a else .error .malformed

end Orchestration.Json
