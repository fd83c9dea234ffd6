import Orchestration.Proofs.Guise
import Orchestration.Proofs.Widening

/-!
# Other tracers

A session tells its tracer of every event and never asks it anything. So where a function takes
what an event makes of one tracer to what it makes of another, a run with the second is the run
with the first, seen through the function. Tracers take time, and the two runs may have different
clocks; where no limit bounds the time, nothing depends on them.
-/

set_option autoImplicit false

namespace Orchestration

open Engine

variable {τ τ' : Type}

def Host.timed (h : Host) (clock : Nat → Duration) : Host := { h with clock := clock }

def Guise.retracing (f : τ → τ') (clock : Nat → Duration) : Guise τ τ' :=
  ⟨fun h => h.timed clock, id, id, f⟩

def Session.Untimed (s : Session τ) : Prop := s.effectiveLimits.maxDuration = none

namespace Guise

variable [Tracer τ] [Tracer τ'] {f : τ → τ'} {clock : Nat → Duration}

theorem retracing_alike (follows : (retracing f clock).Follows) {s : Session τ}
    (untimed : s.Untimed) :
    (retracing f clock).Alike (·.limits = s.limits) (fun _ => True) fun _ => True where
  toHeard := Reclocks.heard (fun _ => ⟨rfl, rfl⟩) s.limits
  follows := follows
  pending := rfl
  ok := trivial
  fault _ := trivial
  step t same _ := by
    have untimed' : t.effectiveLimits.maxDuration = none := by
      unfold Session.effectiveLimits
      rw [same]
      exact untimed
    unfold Session.refusal?
    rw [Limits.stepError?_untimed untimed']
    exact Limits.stepError?_untimed untimed' ..
  pushScope t id _ _ := Session.pushScope_guised follows rfl id

end Guise

theorem Engine.Yields.retraced [Tracer τ] [Tracer τ'] {f : τ → τ'} {clock : Nat → Duration}
    (follows : (Guise.retracing f clock).Follows) {w : Work} {s : Session τ}
    {starts : List (Start τ)} {v : Verdict} {r : Answer τ Unit} (h : Yields w s starts v r)
    (untimed : s.Untimed) :
    Yields w (s.guised (.retracing f clock)) (starts.map (Start.guised (.retracing f clock))) v
      (r.1, r.2.guised (.retracing f clock)) :=
  h.guised (Guise.retracing_alike follows untimed) rfl trivial trivial

end Orchestration
