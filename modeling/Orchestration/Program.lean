import Orchestration.Engine.Run

/-!
# Programs

A program is a main activity and the limits of its sessions. Each run starts a
session of its own. A program that ends with termination still pending has been
terminated; a fault that no scope takes is an error of the whole run.
-/

set_option autoImplicit false

namespace Orchestration

structure Program where
  main : Activity
  limits : Limits
  deriving Inhabited

inductive Outcome where
  | completed
  | terminated (f : Fault)
  | exited
  deriving DecidableEq, Repr

inductive Failure where
  | uncaught (f : Fault)
  | structural (e : StructuralError)
  | limit (e : LimitError)
  deriving DecidableEq, Repr

def Failure.message : Failure → String
  | .uncaught f => "uncaught fault " ++ f.text
  | .structural e => e.message
  | .limit e => e.message

def invalidProgram (reason : String) : String := "invalid program: " ++ reason

namespace Program

def agrees (p q : Program) : Bool := p.main.agrees q.main && p.limits = q.limits

def conclude (result : Except Stop Unit) (pending : Option Fault) : Except Failure Outcome :=
  match result with
  | .ok () =>
    match pending with
    | some f => .ok (.terminated f)
    | none => .ok .completed
  | .error (.fault f) => .error (.uncaught f)
  | .error (.abort .exit) => .ok .exited
  | .error (.abort (.structural e)) => .error (.structural e)
  | .error (.abort (.limit e)) => .error (.limit e)

theorem conclude_eq_completed {result : Except Stop Unit} {pending : Option Fault} :
    conclude result pending = .ok .completed ↔ result = .ok () ∧ pending = none := by
  unfold conclude
  constructor
  · intro ended
    split at ended
    · split at ended <;> cases ended
      exact ⟨rfl, rfl⟩
    all_goals cases ended
  · rintro ⟨rfl, rfl⟩
    rfl

theorem conclude_eq_terminated {result : Except Stop Unit} {pending : Option Fault}
    {f : Fault} (ended : conclude result pending = .ok (.terminated f)) :
    result = .ok () ∧ pending = some f := by
  unfold conclude at ended
  split at ended
  · split at ended <;> cases ended
    exact ⟨rfl, rfl⟩
  all_goals cases ended

theorem conclude_eq_limit {result : Except Stop Unit} {pending : Option Fault} {e : LimitError}
    (ended : conclude result pending = .error (.limit e)) : result = .error (.abort (.limit e)) := by
  unfold conclude at ended
  split at ended
  · split at ended <;> cases ended
  · cases ended
  · cases ended
  · cases ended
  · cases ended
    rfl

theorem conclude_eq_structural {result : Except Stop Unit} {pending : Option Fault}
    {e : StructuralError} (ended : conclude result pending = .error (.structural e)) :
    result = .error (.abort (.structural e)) := by
  unfold conclude at ended
  split at ended
  · split at ended <;> cases ended
  · cases ended
  · cases ended
  · cases ended
    rfl
  · cases ended

variable {τ : Type} [Tracer τ]

/-- Runs the program in a fresh session. Answers how it ended and the session after it. -/
def run (p : Program) (host : Host) (tracer : τ) : Except Failure Outcome × Session τ :=
  let (result, s) := p.main.run (Session.start host (some p.limits) tracer)
  (conclude result s.pending, s)

theorem run_fst (program : Program) (host : Host) (tracer : τ) :
    (program.run host tracer).1 =
      conclude (program.main.run (.start host (some program.limits) tracer)).1
        (program.main.run (.start host (some program.limits) tracer)).2.pending := rfl

theorem run_snd (program : Program) (host : Host) (tracer : τ) :
    (program.run host tracer).2 =
      (program.main.run (.start host (some program.limits) tracer)).2 := rfl

end Program

end Orchestration
