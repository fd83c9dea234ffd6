import Orchestration.Proofs.Operations
import Orchestration.Trace.Recording

/-!
# The events of a run

The tracer of a session is told of the events one by one, so between two sessions of a
run it has taken in a list of events. A recording without a limit holds the list itself.
-/

set_option autoImplicit false

namespace Orchestration

theorem Recording.foldl_observe (es old : List Event) :
    es.foldl Tracer.observe (⟨none, old⟩ : Recording) = ⟨none, old ++ es⟩ := by
  induction es generalizing old with
  | nil => rw [List.append_nil]; rfl
  | cons e es ih =>
    rw [List.foldl_cons]
    change es.foldl Tracer.observe (⟨none, old ++ [e]⟩ : Recording) = _
    rw [ih, List.append_assoc]
    rfl

def EventKind.announces : EventKind → Bool
  | .compensationStart => true
  | .faultDispatch => true
  | _ => false

namespace Session

variable {τ : Type} [Tracer τ]

/-- Between the two sessions the tracer has been told of the events of the list. -/
def Logs (s : Session τ) (es : List Event) (s' : Session τ) : Prop :=
  s'.tracer = es.foldl Tracer.observe s.tracer

theorem logs_refl (s : Session τ) : s.Logs [] s := rfl

theorem Logs.append {s s' s'' : Session τ} {es es' : List Event} (first : s.Logs es s')
    (second : s'.Logs es' s'') : s.Logs (es ++ es') s'' := by
  unfold Logs at *
  rw [List.foldl_append, second, first]

theorem logs_observe (s : Session τ) (e : Event) : s.Logs [e] (s.observe e) := rfl

theorem Logs.observe {s s' : Session τ} {es : List Event} (first : s.Logs es s') (e : Event) :
    s.Logs (es ++ [e]) (s'.observe e) := first.append (s'.logs_observe e)

theorem logs_step {s s₁ : Session τ} {e : Except Stop Unit} (step : s.step = (e, s₁)) :
    s.Logs [] s₁ := by
  rw [stepped_eq step]
  rfl

theorem logs_takeHandler? {s s' : Session τ} {name : String} {orFallback : Bool} {p : Activity}
    (taken : s.takeHandler? name orFallback = some (p, s')) : s.Logs [] s' := by
  obtain ⟨h, -, rfl⟩ := takeHandler?_eq taken
  rfl

theorem logs_takeCompensation? {s s' : Session τ} {scope : String} {p : Activity}
    (taken : s.takeCompensation? scope = some (p, s')) : s.Logs [] s' := by
  obtain ⟨h, -, rfl⟩ := takeCompensation?_eq taken
  rfl

theorem logs_takeVisible? {s s' : Session τ} {scope : String} {p : Activity}
    (taken : s.takeVisible? scope = some (p, s')) : s.Logs [] s' := by
  obtain ⟨h, outer, -, rfl⟩ := takeVisible?_eq taken
  rfl

theorem logs_pushScope_ok {s s₁ : Session τ} {scope : String}
    (push : s.pushScope scope = (.ok (), s₁)) : s.Logs [.scopePush scope (s.depth + 1)] s₁ := by
  rw [opened_of_pushScope push]
  rfl

theorem logs_undoing {s s' s'' : Session τ} {id : String} {k : Fault} {c : Activity}
    {es : List Event}
    (taken : (s.observe (.killObserved id k.name)).takeCompensation? id = some (c, s'))
    (logs : (s'.clearKill.observe (.compensationStart id)).Logs es s'') :
    s.Logs (.killObserved id k.name :: .compensationStart id :: es) s'' := by
  have took : s.Logs [.killObserved id k.name] s' :=
    (s.logs_observe _).append (logs_takeCompensation? taken)
  exact took.append ((s'.clearKill.logs_observe _).append logs)

theorem logs_handling {s s' s'' : Session τ} {f : Fault} {h : Activity} {e : Event}
    {es : List Event} (taken : s.takeHandler? f.name true = some (h, s'))
    (logs : ((s'.delivered f).observe e).Logs es s'') : s.Logs (e :: es) s'' :=
  (logs_takeHandler? taken).append (((s'.delivered f).logs_observe e).append logs)

theorem logs_closed (s : Session τ) (merge : Bool) (env : Environment) :
    s.Logs [.scopePop s.currentScope merge env.depth] (s.closed merge env) := by
  unfold closed
  cases s.enclosing <;> rfl

end Session

namespace Engine

open Session

variable {τ : Type} [Tracer τ]

theorem logs_atomic {p : Activity} {s : Session τ} {r : Answer τ Unit}
    (atom : atomic? p s = some r) : s.Logs [] r.2 := by
  obtain ⟨env, handlers, pending, calls, output, eq, -⟩ := atomic_snd atom
  rw [eq]
  rfl

def Role.announced : Role → Option EventKind
  | .body => none
  | .compensation => some .compensationStart
  | .handler => some .faultDispatch

def Unannounced (es : List Event) : Prop :=
  ∀ role k, Role.announced role = some k → es.countP (·.kind = k) = 0

theorem unannounced_nil : Unannounced [] := fun _ _ _ => rfl

theorem unannounced_event {e : Event} (quiet : e.kind.announces = false) : Unannounced [e] := by
  intro role k announced
  have other : e.kind ≠ k := by
    intro same
    rw [same] at quiet
    cases role <;> cases announced <;> cases quiet
  rw [List.countP_cons_of_neg (by simpa using other)]
  rfl

theorem Unannounced.append {es es' : List Event} (first : Unannounced es)
    (second : Unannounced es') : Unannounced (es ++ es') := by
  intro role k announced
  rw [List.countP_append, first role k announced, second role k announced]

theorem logs_resolve (id : String) (v : Verdict) (s : Session τ) :
    ∃ es, s.Logs es (resolve id v s).2 ∧ Unannounced es := by
  unfold resolve
  split
  · split
    · exact ⟨_, s.logs_observe _, unannounced_event rfl⟩
    · exact ⟨[], s.logs_refl, unannounced_nil⟩
  · exact ⟨[], s.logs_refl, unannounced_nil⟩

theorem logs_leave (id : String) (autoPop : Bool) (v : Verdict) (s : Session τ) :
    ∃ es, s.Logs es (leave id autoPop v s).2 ∧ Unannounced es := by
  unfold leave
  split
  · rcases s.popScope_cases v.merge with ⟨env, -, eq⟩ | ⟨-, eq⟩ <;> rw [eq]
    · obtain ⟨es, resolved, quiet⟩ := logs_resolve id v (s.closed v.merge env)
      exact ⟨_, (s.logs_closed ..).append resolved, (unannounced_event rfl).append quiet⟩
    · exact ⟨[], s.logs_refl, unannounced_nil⟩
  · exact logs_resolve id v s

end Engine

end Orchestration
