import Orchestration.Double

/-!
# Binary primitives

Whole numbers are written in groups of seven bits, the lowest first, each byte but
the last with its high bit set. A number has a limit of bytes, and the last byte of
that limit must not hold more than the number's width has left. Signed numbers are
folded onto the whole ones, 0, -1, 1, -2 and so on. A reader takes what it reads
off the front of the bytes.
-/

set_option autoImplicit false

namespace Orchestration.Binary

inductive LoadError where
  | unexpectedEnd
  | badVarint
  | badUtf8
  | badOption
  | badBool
  /-- Bytes of the right form that stand for nothing: an unknown case, a malformed path, a duration
  that is too long. -/
  | badContent
  deriving DecidableEq, Repr

def LoadError.message : LoadError → String
  | .unexpectedEnd => "Hit the end of buffer, expected more data"
  | .badVarint => "Found a varint that didn't terminate. Is the usize too big for this platform?"
  | .badUtf8 => "Tried to parse invalid utf-8"
  | .badOption => "Found an Option discriminant that wasn't 0 or 1"
  | .badBool => "Found a bool that wasn't 0 or 1"
  | .badContent => "Serde Deserialization Error"

abbrev Bytes := List UInt8

abbrev Reader (α : Type) := Bytes → Except LoadError (α × Bytes)

/-! ## Writing -/

def varint : Nat → Nat → Bytes
  | 0, _ => []
  | limit + 1, n =>
    if n < 128 then [UInt8.ofNat n]
    else UInt8.ofNat (n % 128 + 128) :: varint limit (n / 128)

def nat64 (n : Nat) : Bytes := varint 10 n

def nat32 (n : Nat) : Bytes := varint 5 n

def zigzag (n : Int) : Nat := if 0 ≤ n then 2 * n.toNat else 2 * (-n).toNat - 1

def int64 (n : Int64) : Bytes := nat64 (zigzag n.toInt)

def littleEndian : Nat → Nat → Bytes
  | 0, _ => []
  | count + 1, n => UInt8.ofNat (n % 256) :: littleEndian count (n / 256)

def double (x : Double) : Bytes := littleEndian 8 x.bits.toNat

def bool (b : Bool) : Bytes := [if b then 1 else 0]

def string (s : String) : Bytes :=
  let bytes := s.toUTF8.data.toList
  nat64 bytes.length ++ bytes

def option {α : Type} (write : α → Bytes) : Option α → Bytes
  | none => [0]
  | some a => 1 :: write a

/-! ## Reading -/

namespace Read

variable {α β : Type}

def fail (e : LoadError) : Reader α := fun _ => .error e

def pure (a : α) : Reader α := fun bs => .ok (a, bs)

def andThen (r : Reader α) (f : α → Reader β) : Reader β := fun bs =>
  match r bs with
  | .ok (a, rest) => f a rest
  | .error e => .error e

def map (f : α → β) (r : Reader α) : Reader β := andThen r fun a => pure (f a)

def byte : Reader UInt8
  | [] => .error .unexpectedEnd
  | b :: bs => .ok (b, bs)

/-- A number of at most `limit` bytes, whose last possible byte is at most `last`. -/
def varint (last : Nat) : Nat → Reader Nat
  | 0 => fail .badVarint
  | limit + 1 => andThen byte fun b =>
    if b.toNat < 128 then
      if limit = 0 ∧ last < b.toNat then fail .badVarint else pure b.toNat
    else map (fun n => b.toNat - 128 + 128 * n) (varint last limit)

def nat64 : Reader Nat := varint 1 10

def nat32 : Reader Nat := varint 15 5

def unzigzag (n : Nat) : Int := if n % 2 = 0 then (n / 2 : Nat) else -((n / 2 : Nat) : Int) - 1

def int64 : Reader Int64 := map (fun n => Int64.ofInt (unzigzag n)) nat64

def littleEndian : Nat → Reader Nat
  | 0 => pure 0
  | count + 1 => andThen byte fun b => map (fun n => b.toNat + 256 * n) (littleEndian count)

def double : Reader Double := map (fun n => ⟨UInt64.ofNat n⟩) (littleEndian 8)

def flag (error : LoadError) : Reader Bool := andThen byte fun b =>
  if b = 0 then pure false else if b = 1 then pure true else fail error

def bool : Reader Bool := flag .badBool

def take (count : Nat) : Reader Bytes := fun bs =>
  if bs.length < count then .error .unexpectedEnd else .ok (bs.take count, bs.drop count)

def utf8 (bytes : Bytes) : Reader String :=
  match String.fromUTF8? ⟨bytes.toArray⟩ with
  | some s => pure s
  | none => fail .badUtf8

def string : Reader String := andThen nat64 fun count => andThen (take count) utf8

def option (r : Reader α) : Reader (Option α) := andThen (flag .badOption) fun present =>
  if present then map some r else pure none

def many (r : Reader α) : Nat → Reader (List α)
  | 0 => pure []
  | count + 1 => andThen r fun a => map (a :: ·) (many r count)

def list (r : Reader α) : Reader (List α) := andThen nat64 (many r)

/-- A reader that reads parts of its value by itself. Each part lies behind a byte that is the
value's own, so as many levels as there are bytes are enough. -/
def nested (body : Reader α → Reader α) : Nat → Reader α
  | 0 => fail .unexpectedEnd
  | levels + 1 => body (nested body levels)

def recursive (body : Reader α → Reader α) : Reader α := fun bs => nested body (bs.length + 1) bs

end Read

end Orchestration.Binary
