import Orchestration.Binary
import Orchestration.Path.Text
import Orchestration.Program

/-!
# The binary form of programs

The fields of a structure follow each other; a case is its number followed by its
content; a list is its length followed by its items; a path is its text. Whatever
follows a program is passed over when it is loaded.
-/

set_option autoImplicit false

namespace Orchestration

open Binary

namespace Value

def dump : Value → Bytes
  | .void => nat32 0
  | .bool b => nat32 1 ++ Binary.bool b
  | .int n => nat32 2 ++ int64 n
  | .double x => nat32 3 ++ Binary.double x
  | .str s => nat32 4 ++ string s

def loader : Reader Value := Read.andThen Read.nat32 fun
  | 0 => Read.pure .void
  | 1 => Read.map .bool Read.bool
  | 2 => Read.map .int Read.int64
  | 3 => Read.map .double Read.double
  | 4 => Read.map .str Read.string
  | _ => Read.fail .badContent

end Value

namespace Path

def dump (p : Path) : Bytes := string p.text

def loader : Reader Path := Read.andThen Read.string fun s =>
  match Path.ofText s with
  | .ok p => Read.pure p
  | .error _ => Read.fail .badContent

end Path

namespace Expr

mutual

def dump : Expr → Bytes
  | .literal v => nat32 0 ++ v.dump
  | .path p => nat32 1 ++ p.dump
  | .concat parts => nat32 2 ++ nat64 parts.length ++ dumpAll parts

def dumpAll : List Expr → Bytes
  | [] => []
  | e :: rest => e.dump ++ dumpAll rest

end

/-- The content of the case of a number; `self` reads the expressions in it. -/
def caseLoader (self : Reader Expr) : Nat → Reader Expr
  | 0 => Read.map .literal Value.loader
  | 1 => Read.map .path Path.loader
  | 2 => Read.map .concat (Read.list self)
  | _ => Read.fail .badContent

def loader : Reader Expr := Read.recursive fun self => Read.andThen Read.nat32 (caseLoader self)

end Expr

namespace Target

def dump : Target → Bytes
  | .fault name => nat32 0 ++ string name
  | .default => nat32 1
  | .this => nat32 2

def loader : Reader Target := Read.andThen Read.nat32 fun
  | 0 => Read.map .fault Read.string
  | 1 => Read.pure .default
  | 2 => Read.pure .this
  | _ => Read.fail .badContent

end Target

namespace Activity

mutual

def dump : Activity → Bytes
  | .nil => nat32 0
  | .sequence ps => nat32 1 ++ nat64 ps.length ++ dumpAll ps
  | .parallel ps => nat32 2 ++ nat64 ps.length ++ dumpAll ps
  | .assign path value => nat32 3 ++ path.dump ++ value.dump
  | .print parts => nat32 4 ++ nat64 parts.length ++ Expr.dumpAll parts
  | .throw fault payload => nat32 5 ++ string fault ++ option Expr.dump payload
  | .kill fault payload => nat32 6 ++ string fault ++ option Expr.dump payload
  | .install handlers => nat32 7 ++ nat64 handlers.length ++ dumpHandlers handlers
  | .compensate id => nat32 8 ++ string id
  | .scope id body autoPop => nat32 9 ++ string id ++ body.dump ++ Binary.bool autoPop
  | .exit => nat32 10

def dumpAll : List Activity → Bytes
  | [] => []
  | p :: rest => p.dump ++ dumpAll rest

def dumpHandlers : List (Target × Activity) → Bytes
  | [] => []
  | (t, p) :: rest => t.dump ++ p.dump ++ dumpHandlers rest

end

def faultLoader (make : String → Option Expr → Activity) : Reader Activity :=
  Read.andThen Read.string fun name => Read.map (make name) (Read.option Expr.loader)

def handlerLoader (self : Reader Activity) : Reader (Target × Activity) :=
  Read.andThen Target.loader fun t => Read.map (t, ·) self

def scopeLoader (self : Reader Activity) : Reader Activity :=
  Read.andThen Read.string fun id => Read.andThen self fun body => Read.map (.scope id body) Read.bool

def caseLoader (self : Reader Activity) : Nat → Reader Activity
  | 0 => Read.pure .nil
  | 1 => Read.map .sequence (Read.list self)
  | 2 => Read.map .parallel (Read.list self)
  | 3 => Read.andThen Path.loader fun p => Read.map (.assign p) Expr.loader
  | 4 => Read.map .print (Read.list Expr.loader)
  | 5 => faultLoader .throw
  | 6 => faultLoader .kill
  | 7 => Read.map .install (Read.list (handlerLoader self))
  | 8 => Read.map .compensate Read.string
  | 9 => scopeLoader self
  | 10 => Read.pure .exit
  | _ => Read.fail .badContent

def loader : Reader Activity := Read.recursive fun self =>
  Read.andThen Read.nat32 (caseLoader self)

end Activity

namespace Duration

def dump (d : Duration) : Bytes := nat64 d.secs.toNat ++ nat32 d.nanos

def loader : Reader Duration := Read.andThen Read.nat64 fun secs => Read.andThen Read.nat32 fun nanos =>
  match ofParts? secs nanos with
  | some d => Read.pure d
  | none => Read.fail .badContent

end Duration

namespace Limits

def dumpWord : Option UInt64 → Bytes := option fun n => nat64 n.toNat

def wordLoader : Reader (Option UInt64) := Read.option (Read.map UInt64.ofNat Read.nat64)

def dump (l : Limits) : Bytes :=
  dumpWord l.maxScopeDepth ++ dumpWord l.maxOperations ++ option Duration.dump l.maxDuration

def loader : Reader Limits :=
  Read.andThen wordLoader fun depth => Read.andThen wordLoader fun operations =>
    Read.map (Limits.mk depth operations) (Read.option Duration.loader)

end Limits

namespace Program

def dump (p : Program) : Bytes := p.main.dump ++ p.limits.dump

def loader : Reader Program :=
  Read.andThen Activity.loader fun main => Read.map (Program.mk main) Limits.loader

/-- The program that the bytes start with. -/
def load (bytes : Bytes) : Except LoadError Program :=
  match loader bytes with
  | .ok (p, _) => .ok p
  | .error e => .error e

end Program

end Orchestration
