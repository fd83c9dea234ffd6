import Orchestration.Trace

/-!
# Profiles

A profile counts the events of each kind and the deepest nesting of scopes. Its
report lists the kinds that occurred, the most frequent first and those of one
frequency by name.
-/

set_option autoImplicit false

namespace Orchestration

structure Profile where
  counts : List (EventKind × Nat)
  maxDepth : Nat
  deriving Inhabited

structure Report where
  counts : List (EventKind × Nat)
  maxDepth : Nat

namespace Profile

def empty : Profile := ⟨[], 0⟩

def bump : List (EventKind × Nat) → EventKind → List (EventKind × Nat)
  | [], k => [(k, 1)]
  | (k', n) :: rest, k => if k' = k then (k, n + 1) :: rest else (k', n) :: bump rest k

def observe (p : Profile) (e : Event) : Profile where
  counts := bump p.counts e.kind
  maxDepth := match e with
    | .scopePush _ depth => max p.maxDepth depth
    | _ => p.maxDepth

instance : Tracer Profile := ⟨observe⟩

def precedes (a b : EventKind × Nat) : Bool :=
  b.2 < a.2 || (a.2 = b.2 && a.1.name ≤ b.1.name)

def report (p : Profile) : Report := ⟨p.counts.mergeSort precedes, p.maxDepth⟩

end Profile

namespace Report

def count (r : Report) (k : EventKind) : Nat := (r.counts.lookup k).getD 0

def padRight (width : Nat) (s : String) : String := s.pushn ' ' (width - s.length)

def padLeft (width : Nat) (s : String) : String := "".pushn ' ' (width - s.length) ++ s

def line (entry : EventKind × Nat) : String :=
  "  " ++ padRight 20 entry.1.name ++ " " ++ padLeft 10 (toString entry.2) ++ "\n"

def text (r : Report) : String :=
  "=== Scope Profiling Report ===\n" ++ s!"Max scope depth: {r.maxDepth}\n" ++
    String.join (r.counts.map line)

end Report

end Orchestration
