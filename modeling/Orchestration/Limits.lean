import Orchestration.Duration

/-!
# Limits of a session

A session may limit how many scopes are open at once, how many activity steps it
makes and how long it takes. A limit that is not set does not hold, except that
at most 512 scopes are ever open.
-/

set_option autoImplicit false

namespace Orchestration

structure Limits where
  maxScopeDepth : Option UInt64
  maxOperations : Option UInt64
  maxDuration : Option Duration
  deriving DecidableEq, Repr, Inhabited

inductive LimitError where
  | scopeDepth (limit depth : Nat)
  | operation (limit count : Nat)
  | time (limit elapsed : Duration)
  deriving DecidableEq, Repr

def LimitError.message : LimitError → String
  | .scopeDepth limit depth => s!"scope depth limit exceeded: {depth} > {limit}"
  | .operation limit count => s!"operation limit exceeded: {count} > {limit}"
  | .time limit elapsed => s!"time limit exceeded: {elapsed.text} > {limit.text}"

namespace Limits

def none : Limits := ⟨Option.none, Option.none, Option.none⟩

def defaultScopeDepth : Nat := 512

def scopeDepth (l : Limits) : Nat := (l.maxScopeDepth.map UInt64.toNat).getD defaultScopeDepth

/-- The error of making the `steps`-th step after the elapsed time; the count is looked at first. -/
def stepError? (l : Limits) (steps : Nat) (elapsed : Duration) : Option LimitError :=
  let operation := match l.maxOperations with
    | some limit => if limit.toNat < steps then some (.operation limit.toNat steps) else .none
    | .none => .none
  operation <|> match l.maxDuration with
    | some limit => if limit.toNanos < elapsed.toNanos then some (.time limit elapsed) else .none
    | .none => .none

theorem timeError_ne_operation (max : Option Duration) (elapsed : Duration) (l c : Nat) :
    (match max with
      | some limit => if limit.toNanos < elapsed.toNanos then some (.time limit elapsed) else .none
      | .none => .none) ≠ some (LimitError.operation l c) := by
  cases max with
  | none => nofun
  | some limit =>
    dsimp only
    split <;> nofun

theorem stepError?_operation {limits : Limits} {steps l c : Nat} {elapsed : Duration}
    (refused : limits.stepError? steps elapsed = some (.operation l c)) :
    c = steps ∧ l < steps ∧ ∃ limit, limits.maxOperations = some limit ∧ limit.toNat = l := by
  unfold stepError? at refused
  dsimp only at refused
  split at refused
  · next limit operations =>
    split at refused
    · next passed =>
      injection refused with eq
      injection eq with limited counted
      exact ⟨counted.symm, limited ▸ passed, limit, operations, limited⟩
    · exact (timeError_ne_operation limits.maxDuration elapsed l c refused).elim
  · exact (timeError_ne_operation limits.maxDuration elapsed l c refused).elim

def depthError? (l : Limits) (depth : Nat) : Option LimitError :=
  if l.scopeDepth ≤ depth then some (.scopeDepth l.scopeDepth (depth + 1)) else .none

/-- The error of a depth that is counted in 64-bit words, where 0 follows the largest. -/
def wordDepthError? (l : Limits) (depth : UInt64) : Option LimitError :=
  if l.scopeDepth ≤ depth.toNat then some (.scopeDepth l.scopeDepth (depth + 1).toNat) else .none

theorem wordDepthError?_eq (l : Limits) (depth : UInt64) (small : depth.toNat + 1 < UInt64.size) :
    l.wordDepthError? depth = l.depthError? depth.toNat := by
  have next : (depth + 1).toNat = depth.toNat + 1 := by
    rw [UInt64.toNat_add]; exact Nat.mod_eq_of_lt small
  simp [wordDepthError?, depthError?, next]

end Limits

end Orchestration
