import Orchestration.Proofs.Precedence

/-!
# An observed kill is put back

The request that a scope sees first is the one that is pending when the scope has ended. Its
compensation is out of the table when it starts, and the request out of the way. Whatever the
compensation does then, it is settled before the request is put back: its own requests give way,
and no fault leads past that place.
-/

set_option autoImplicit false

namespace Orchestration

open Engine Session

variable {τ : Type}

namespace Session

theorem takeCompensation?_held (s : Session τ) (scope : String) :
    s.takeCompensation? scope = (s.handlers.compensations.get? scope).map fun c =>
      (c, { s with handlers :=
        { s.handlers with compensations := s.handlers.compensations.erase scope } }) := by
  unfold takeCompensation? Handlers.takeCompensation?
  rw [Option.map_map]
  rfl

variable [Tracer τ]

/-- The session in which a scope that has seen the kill starts its compensation. -/
def undoing (s : Session τ) (id : String) (k : Fault) : Session τ :=
  observe (observe { s with
    handlers := { s.handlers with compensations := s.handlers.compensations.erase id }
    pending := none } (.killObserved id k.name)) (.compensationStart id)

theorem undoing_of_taken {s s' : Session τ} {id : String} {k : Fault} {c c' : Activity}
    (held : s.handlers.compensations.get? id = some c)
    (taken : (s.observe (.killObserved id k.name)).takeCompensation? id = some (c', s')) :
    c' = c ∧ s'.clearKill.observe (.compensationStart id) = s.undoing id k := by
  have same : (s.observe (.killObserved id k.name)).handlers.compensations.get? id = some c := held
  rw [takeCompensation?_held, same] at taken
  cases taken
  exact ⟨rfl, rfl⟩

theorem not_held_of_none {s : Session τ} {id : String} {e : Event} {c : Activity}
    (none : (s.observe e).takeCompensation? id = none) :
    s.handlers.compensations.get? id ≠ some c := by
  intro held
  have same : (s.observe e).handlers.compensations.get? id = some c := held
  rw [takeCompensation?_held, same] at none
  cases none

end Session

namespace Engine

variable [Tracer τ]

/-- The activity, or the last of the handlers that run in its place, returns in the given
session. -/
inductive Returns : Activity → Session τ → Session τ → Prop
  | returned {p : Activity} {s s₁ : Session τ} : p.run s = (.ok (), s₁) → Returns p s s₁
  | dispatched {p h : Activity} {s s₁ s₂ s' : Session τ} {f : Fault} :
      p.run s = (.error (.fault f), s₁) → s₁.takeHandler? f.name true = some (h, s₂) →
      Returns h ((s₂.delivered f).observe (.faultDispatch s₁.currentScope f.name)) s' →
      Returns p s s'

theorem Observes.returns {p : Activity} {s : Session τ} {k : Fault} (observed : Observes p s k) :
    ∃ s₁, Returns p s s₁ ∧ s₁.pending = some k := by
  induction observed with
  | returned ran pending => exact ⟨_, .returned ran, pending⟩
  | dispatched ran taken handling ih =>
    obtain ⟨s₁, returns, pending⟩ := ih
    exact ⟨s₁, .dispatched ran taken returns, pending⟩

theorem Yields.settle_runs {role : Role} {id : String} {p : Activity} {s : Session τ}
    {starts : List (Start τ)} {v : Verdict} {r : Answer τ Unit}
    (h : Yields (.settle role id p) s starts v r) : ⟨.run p, s⟩ ∈ starts := by
  cases h with
  | quiet body | killed body | captured body | aborted body =>
    obtain ⟨parts, rfl⟩ := body.head
    simp
  | undone body | interrupted body | dispatched body =>
    obtain ⟨parts, rfl⟩ := body.head
    simp

/-- What a scope makes of a kill that it has seen where its body, or a handler, has returned: its
frame is discarded, the kill is pending, and its compensation has been started. -/
structure Restores (id : String) (k : Fault) (s₁ : Session τ) (starts : List (Start τ))
    (v : Verdict) (s' : Session τ) : Prop where
  discards : v.merge = false
  pending : s'.pending = some k
  undoes : ∀ c, s₁.handlers.compensations.get? id = some c →
    ⟨.run c, s₁.undoing id k⟩ ∈ starts

theorem Yields.restores {role : Role} {id : String} {p : Activity} {s s' s₁ : Session τ}
    {starts : List (Start τ)} {v : Verdict} {k : Fault}
    (h : Yields (.settle role id p) s starts v (.ok (), s')) (returns : Returns p s s₁)
    (pending : s₁.pending = some k) : Restores id k s₁ starts v s' := by
  induction returns generalizing role starts with
  | returned ran =>
    cases h with
    | quiet body none =>
      rw [body.run_eq] at ran
      cases ran
      cases none.symm.trans pending
    | killed body pending' none =>
      rw [body.run_eq] at ran
      cases ran
      cases pending'.symm.trans pending
      exact ⟨rfl, pending, fun c held => absurd held (not_held_of_none none)⟩
    | undone body pending' taken undo =>
      rw [body.run_eq] at ran
      cases ran
      cases pending'.symm.trans pending
      refine ⟨rfl, rfl, ?_⟩
      intro c held
      obtain ⟨rfl, start⟩ := undoing_of_taken held taken
      rw [start] at undo
      exact List.mem_cons_of_mem _ (List.mem_append_right _ undo.settle_runs)
    | captured body | dispatched body => rw [body.run_eq] at ran; cases ran
  | dispatched ran taken handled ih =>
    cases h with
    | quiet body | killed body | undone body => rw [body.run_eq] at ran; cases ran
    | captured body none =>
      rw [body.run_eq] at ran
      cases ran
      cases none.symm.trans taken
    | dispatched body taken' handling =>
      rw [body.run_eq] at ran
      cases ran
      cases taken'.symm.trans taken
      have inner := ih handling pending
      refine ⟨inner.discards, inner.pending, ?_⟩
      intro c held
      exact List.mem_cons_of_mem _ (List.mem_append_right _ (inner.undoes c held))

end Engine

theorem andThen_done (r : Answer τ Unit) : Session.andThen r Session.done = r := by
  obtain ⟨e, s⟩ := r
  cases e <;> rfl

variable [Tracer τ]

theorem leave_eq_of_discarded {v : Verdict} (discarded : v.merge = false) (id : String)
    (autoPop : Bool) (s : Session τ) :
    leave id autoPop v s = if autoPop then s.popScope false else s.done := by
  have resolved : resolve id v = (Session.done : Session τ → Answer τ Unit) :=
    funext (resolve_of_discarded discarded)
  unfold leave
  rw [resolved, discarded, andThen_done]

theorem leave_ok_of_discarded {v : Verdict} (discarded : v.merge = false) {id : String}
    {autoPop : Bool} {s : Session τ}
    (ends : ∀ a, (leave id autoPop v s).1 ≠ .error (.abort a)) :
    (leave id autoPop v s).1 = .ok () := by
  cases autoPop with
  | true => exact leave_of_discarded discarded ends
  | false =>
    rw [leave_eq_of_discarded discarded]
    rfl

/-- A scope that does not abort and has seen a kill returns, with that kill pending, and if it
closes its frame then the frame is discarded. A compensation that the current frame has held for
it where it saw the kill was started, out of the table and with nothing pending. -/
theorem observed_kill_is_restored (τ : Type) [Tracer τ] (d : ScopeDefinition) (s : Session τ)
    (k : Fault) (observed : d.ObservesKill s k) (ends : ∀ a, (d.execute s).1 ≠ .error (.abort a)) :
    (d.execute s).1 = .ok () ∧ (d.execute s).2.pending = some k ∧
      (∃ v s', d.Settles s v s' ∧ v.merge = false ∧
        d.execute s = if d.autoPop then s'.popScope false else s'.done) ∧
      ∃ s₁, Returns d.body (s.opened d.id) s₁ ∧ s₁.pending = some k ∧
        ∀ c, s₁.handlers.compensations.get? d.id = some c →
          ∃ starts, Yields (.perform d.activity) s starts .clear (d.execute s) ∧
            ⟨.run c, s₁.undoing d.id k⟩ ∈ starts := by
  obtain ⟨s₁, returns, pending⟩ := Observes.returns observed
  obtain ⟨starts, derivation⟩ := execute_derivation d s
  generalize d.execute s = r at *
  cases derivation with
  | atomic atom => cases atom
  | unopened push =>
    obtain ⟨-, e, rfl⟩ := pushScope_error push
    exact absurd rfl (ends _)
  | unsettled push settle =>
    obtain ⟨a, rfl⟩ := settle.settle_error
    exact absurd rfl (ends a)
  | @settled _ _ _ _ s₂ s' starts v _ push settle left =>
    cases opened_of_pushScope push
    have restores := settle.restores returns pending
    have kept := pending_leave left
    subst left
    refine ⟨leave_ok_of_discarded restores.discards ends, kept.trans restores.pending,
      ⟨v, s', ⟨starts, settle⟩, restores.discards, leave_eq_of_discarded restores.discards ..⟩,
      s₁, returns, pending, ?_⟩
    intro c held
    exact ⟨_, .settled push settle rfl, List.mem_cons_of_mem _ (restores.undoes c held)⟩

def relentless : ScopeDefinition where
  id := "order"
  body := .sequence [
    .install [(.this, .sequence [.install [(.this, .throw "UndoFailed" none)],
      .kill "Again" none])],
    .kill "Stop" (some (.literal (.str "operator")))]
  autoPop := true

theorem relentless_restores_its_kill :
    let start := Session.start .standard none ()
    let k : Fault := ⟨"Stop", .str "operator"⟩
    relentless.ObservesKill start k ∧ (relentless.execute start).1 = .ok () ∧
      (relentless.execute start).2.pending = some k ∧
      ∃ (s₁ : Session Unit) (c : Activity) (starts : List (Start Unit)),
        s₁.handlers.compensations.get? relentless.id = some c ∧
        Yields (.perform relentless.activity) start starts .clear (relentless.execute start) ∧
        ⟨.run c, s₁.undoing relentless.id k⟩ ∈ starts := by
  intro start k
  have returned : relentless.body.run (start.opened relentless.id) =
      (.ok (), (relentless.body.run (start.opened relentless.id)).2) := by rfl
  have observed : relentless.ObservesKill start k := .returned returned (by rfl)
  have ends (a : Abort) : (relentless.execute start).1 ≠ .error (.abort a) := nofun
  obtain ⟨ok, pending, -, s₁, returns, -, undoes⟩ :=
    observed_kill_is_restored Unit relentless start k observed ends
  refine ⟨observed, ok, pending, s₁, ?_⟩
  cases returns with
  | returned ran =>
    cases returned.symm.trans ran
    obtain ⟨starts, derivation, started⟩ := undoes _ rfl
    exact ⟨_, starts, rfl, derivation, started⟩
  | dispatched ran => cases returned.symm.trans ran

end Orchestration
