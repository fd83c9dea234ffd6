import Orchestration.Engine.Budget

/-!
# Running an activity

`Activity.run` gives the engine a budget that is always enough, so it answers for
every activity and every session.
-/

set_option autoImplicit false

namespace Orchestration

variable {τ : Type} [Tracer τ]

theorem Engine.runWithin_isSome (p : Activity) (s : Session τ) :
    (runWithin (p.nodes + s.stored) p s).isSome := by
  obtain ⟨r, h, _⟩ := runWithin_within (p.nodes + s.stored) p s (Nat.le_refl _)
  exact Option.isSome_iff_exists.mpr ⟨r, h⟩

def Activity.run (p : Activity) (s : Session τ) : Answer τ Unit :=
  (Engine.runWithin (p.nodes + s.stored) p s).get (Engine.runWithin_isSome p s)

theorem Engine.execute_isSome (d : ScopeDefinition) (s : Session τ) :
    (execute (runWithin (d.body.nodes + s.stored)) (d.body.nodes + s.stored)
      d.id d.body d.autoPop s).isSome := by
  obtain ⟨r, h, _⟩ := execute_within (runWithin_within _) d.id _ d.body d.autoPop s
    (Nat.le_refl _) (Nat.le_refl _)
  exact Option.isSome_iff_exists.mpr ⟨r, h⟩

/-- Runs a scope without a step for the scope itself. -/
def ScopeDefinition.execute (d : ScopeDefinition) (s : Session τ) : Answer τ Unit :=
  (Engine.execute (Engine.runWithin (d.body.nodes + s.stored)) (d.body.nodes + s.stored)
    d.id d.body d.autoPop s).get (Engine.execute_isSome d s)

end Orchestration
