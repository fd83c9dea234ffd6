import Orchestration.Proofs.Guise

/-!
# Wider limits

Only a step and the opening of a scope look at the limits of a session, and a refusal is an abort
that ends the run. So what happens under some limits without such a refusal happens in the same way
under wider ones. Neither limits may bound the time, which a session reads off its host's clock.
-/

set_option autoImplicit false

namespace Orchestration

open Engine

variable {τ : Type}

namespace Limits

/-- Each of the first limits is at most that of the second, and none of them bounds the time. -/
structure Within (l l' : Limits) : Prop where
  scopeDepth : l.scopeDepth ≤ l'.scopeDepth
  operations : ∀ most, l'.maxOperations = some most → ∃ few, l.maxOperations = some few ∧ few ≤ most
  untimed : l.maxDuration = Option.none
  untimed' : l'.maxDuration = Option.none

theorem stepError?_of_passed {l : Limits} {most : UInt64} {steps : Nat} {elapsed : Duration}
    (limited : l.maxOperations = some most) (passed : most.toNat < steps) :
    l.stepError? steps elapsed = some (.operation most.toNat steps) := by
  unfold stepError?
  rw [limited]
  dsimp only
  rw [if_pos passed]
  rfl

theorem stepError?_untimed {l : Limits} (untimed : l.maxDuration = Option.none) (steps : Nat)
    (elapsed : Duration) : l.stepError? steps elapsed =
      l.maxOperations.bind fun most =>
        if most.toNat < steps then some (.operation most.toNat steps) else Option.none := by
  unfold stepError?
  rw [untimed]
  cases l.maxOperations with
  | none => rfl
  | some most =>
    dsimp only [Option.bind_some]
    split <;> rfl

theorem stepError?_operation_of_untimed {l : Limits} (untimed : l.maxDuration = Option.none)
    {steps : Nat} {elapsed : Duration} {e : LimitError}
    (refused : l.stepError? steps elapsed = some e) : ∃ m c, e = .operation m c := by
  rw [stepError?_untimed untimed] at refused
  cases limited : l.maxOperations with
  | none => rw [limited] at refused; cases refused
  | some most =>
    rw [limited, Option.bind_some] at refused
    split at refused <;> cases refused
    exact ⟨_, _, rfl⟩

theorem Within.stepError? {l l' : Limits} (within : l.Within l') {steps : Nat} {elapsed : Duration}
    (passes : l.stepError? steps elapsed = Option.none) :
    l'.stepError? steps elapsed = Option.none := by
  rw [stepError?_untimed within.untimed] at passes
  rw [stepError?_untimed within.untimed']
  cases limited : l'.maxOperations with
  | none => rfl
  | some most =>
    obtain ⟨few, same, le⟩ := within.operations most limited
    rw [same] at passes
    simp only [Option.bind_some, ite_eq_right_iff, reduceCtorEq, imp_false, Nat.not_lt] at passes ⊢
    exact Nat.le_trans passes (UInt64.le_iff_toNat_le.mp le)

theorem Within.depthError? {l l' : Limits} (within : l.Within l') {depth : Nat}
    (passes : l.depthError? depth = Option.none) : l'.depthError? depth = Option.none := by
  unfold Limits.depthError? at *
  simp only [ite_eq_right_iff, reduceCtorEq, imp_false, Nat.not_le] at passes ⊢
  exact Nat.lt_of_lt_of_le passes within.scopeDepth

end Limits

def Session.under (l : Limits) (s : Session τ) : Session τ := { s with limits := some l }

def Engine.Start.under (l : Limits) (x : Start τ) : Start τ := ⟨x.work, x.session.under l⟩

def Guise.widening (l : Limits) : Guise τ τ := ⟨id, fun _ => some l, id, id⟩

namespace Engine

variable {l l' : Limits}

/-- If a limit has led to the result then it is one of the scopes, which the other limits share. -/
def Passes (l l' : Limits) (result : Except Stop Unit) : Prop :=
  ∀ e, result = .error (.abort (.limit e)) →
    l.scopeDepth = l'.scopeDepth ∧ ∀ m c, e ≠ .operation m c

theorem passes_ok : Passes l l' (.ok ()) := by
  intro e cut
  cases cut

theorem passes_fault (f : Fault) : Passes l l' (.error (.fault f)) := by
  intro e cut
  cases cut

end Engine

namespace Session

variable {l l' : Limits} {s s₁ : Session τ}

theorem refusal?_eq (limits : s.limits = some l) :
    s.refusal? = l.stepError? (s.steps + 1) (s.host.clock (s.steps + 1)) := by
  unfold refusal? effectiveLimits
  rw [limits]
  rfl

theorem refusal?_under (within : l.Within l') (limits : s.limits = some l)
    (passes : Passes l l' s.step.1) : (s.under l').refusal? = s.refusal? := by
  cases refusal : s.refusal? with
  | none =>
    rw [refusal?_eq limits] at refusal
    exact within.stepError? refusal
  | some e =>
    have stopped : s.step.1 = .error (.abort (.limit e)) := by rw [step_of_refusal refusal]
    rw [refusal?_eq limits] at refusal
    obtain ⟨m, c, rfl⟩ := Limits.stepError?_operation_of_untimed within.untimed refusal
    exact absurd rfl ((passes _ stopped).2 m c)

theorem stepped_under {s₁' : Session τ} {e e' : Except Stop Unit} (step : s.step = (e, s₁))
    (step' : (s.under l').step = (e', s₁')) : s₁' = s₁.under l' := by
  rw [stepped_eq step, stepped_eq step']
  rfl

theorem step_under (within : l.Within l') (limits : s.limits = some l)
    (step : s.step = (.ok (), s₁)) : (s.under l').step = (.ok (), s₁.under l') := by
  have same := refusal?_under within limits (by rw [step]; exact passes_ok)
  have alike := step_guised (.widening l') same
  rwa [step] at alike

variable [Tracer τ]

theorem pushScope_under (within : l.Within l') (limits : s.limits = some l) {id : String}
    (push : s.pushScope id = (.ok (), s₁)) :
    (s.under l').pushScope id = (.ok (), s₁.under l') := by
  have passes := fits_of_pushScope push
  unfold effectiveLimits at passes
  rw [limits] at passes
  have passes' : (s.under l').effectiveLimits.depthError? (s.under l').depth = none :=
    within.depthError? passes
  rw [opened_of_pushScope push, pushScope_of_fits passes']
  rfl

end Session

variable [Tracer τ] {l l' : Limits}

theorem Guise.widening_alike (within : l.Within l') :
    (Guise.widening l' : Guise τ τ).Alike (·.limits = some l) (fun _ => True) (Passes l l') where
  toHeard := Reclocks.heard (fun _ => ⟨rfl, rfl⟩) (some l)
  follows _ _ := rfl
  pending := rfl
  ok := passes_ok
  fault := passes_fault
  step _ limits passes := Session.refusal?_under within limits passes
  pushScope s id limits passes := by
    rcases push : s.pushScope id with ⟨stop | _, s₁⟩
    · obtain ⟨-, e, rfl⟩ := Session.pushScope_error push
      have shared : l.scopeDepth = l'.scopeDepth := (passes e (by rw [push])).1
      have most : (s.guised (.widening l')).effectiveLimits.scopeDepth =
          s.effectiveLimits.scopeDepth := by
        unfold Session.effectiveLimits
        rw [limits]
        exact shared.symm
      rw [← push]
      exact Session.pushScope_guised (fun _ _ => rfl) most id
    · exact Session.pushScope_under within limits push

theorem Engine.Yields.under (within : l.Within l') {w : Work} {s : Session τ}
    {starts : List (Start τ)} {v : Verdict} {r : Answer τ Unit} (h : Yields w s starts v r)
    (limits : s.limits = some l) (passes : Passes l l' r.1) :
    Yields w (s.under l') (starts.map (Start.under l')) v (r.1, r.2.under l') :=
  h.guised (Guise.widening_alike within) limits trivial passes

end Orchestration
