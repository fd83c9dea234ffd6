import Orchestration.Proofs.Frames

/-!
# A killed scope rolls back

A scope that sees a kill discards its frame. No work inside it has written below that
frame, and the tables below it have lost entries to `compensate` activities at most. So
the environment is what it was before the scope, and what the scope and its children have
installed is gone.
-/

set_option autoImplicit false

namespace Orchestration

open Activity Engine Session

variable {τ : Type}

namespace Engine

variable [Tracer τ]

/-- The scope that settles the activity sees that a kill is pending when the activity, or a handler
that has run in its place, returns. -/
inductive Observes : Activity → Session τ → Fault → Prop
  | returned {p : Activity} {s s₁ : Session τ} {k : Fault} : p.run s = (.ok (), s₁) →
      s₁.pending = some k → Observes p s k
  | dispatched {p h : Activity} {s s₁ s₂ : Session τ} {f k : Fault} :
      p.run s = (.error (.fault f), s₁) → s₁.takeHandler? f.name true = some (h, s₂) →
      Observes h ((s₂.delivered f).observe (.faultDispatch s₁.currentScope f.name)) k →
      Observes p s k

theorem not_observes_of_quiet {p : Activity} {s s₁ : Session τ} {k : Fault}
    (returned : p.run s = (.ok (), s₁)) (none : s₁.pending = none) : ¬ Observes p s k := by
  intro observed
  cases observed with
  | returned again pending =>
    rw [returned] at again
    cases again
    rw [none] at pending
    cases pending
  | dispatched raised taken handling =>
    rw [returned] at raised
    cases raised

theorem not_observes_of_captured {p : Activity} {s s₁ : Session τ} {f k : Fault}
    (raised : p.run s = (.error (.fault f), s₁)) (none : s₁.takeHandler? f.name true = none) :
    ¬ Observes p s k := by
  intro observed
  cases observed with
  | returned returned pending =>
    rw [raised] at returned
    cases returned
  | dispatched again taken handling =>
    rw [raised] at again
    cases again
    rw [none] at taken
    cases taken

theorem observes_of_dispatched {p h : Activity} {s s₁ s₂ : Session τ} {f k : Fault}
    (raised : p.run s = (.error (.fault f), s₁)) (taken : s₁.takeHandler? f.name true = some (h, s₂))
    (observed : Observes p s k) :
    Observes h ((s₂.delivered f).observe (.faultDispatch s₁.currentScope f.name)) k := by
  cases observed with
  | returned returned pending =>
    rw [raised] at returned
    cases returned
  | dispatched again taken' handling =>
    rw [raised] at again
    cases again
    rw [taken] at taken'
    cases taken'
    exact handling

theorem Yields.discards_iff {role : Role} {id : String} {p : Activity} {s s' : Session τ}
    {starts : List (Start τ)} {v : Verdict}
    (h : Yields (.settle role id p) s starts v (.ok (), s')) :
    v.merge = false ↔ ∃ k, Observes p s k := by
  generalize work : Work.settle role id p = w at h
  generalize answer : (Except.ok (), s') = r at h
  induction h generalizing role id p s' with
  | quiet body none ih =>
    cases work
    refine ⟨nofun, ?_⟩
    rintro ⟨k, observed⟩
    exact absurd observed (not_observes_of_quiet body.run_eq none)
  | killed body pending none ih =>
    cases work
    exact ⟨fun _ => ⟨_, .returned body.run_eq pending⟩, fun _ => rfl⟩
  | undone body pending taken undo ih ih' =>
    cases work
    exact ⟨fun _ => ⟨_, .returned body.run_eq pending⟩, fun _ => rfl⟩
  | captured body none ih =>
    cases work
    refine ⟨nofun, ?_⟩
    rintro ⟨k, observed⟩
    exact absurd observed (not_observes_of_captured body.run_eq none)
  | dispatched body taken handling ih ih' =>
    cases work
    rw [ih' rfl answer]
    constructor
    · rintro ⟨k, observed⟩
      exact ⟨k, .dispatched body.run_eq taken observed⟩
    · rintro ⟨k, observed⟩
      exact ⟨k, observes_of_dispatched body.run_eq taken observed⟩
  | interrupted => cases answer
  | aborted => cases answer
  | _ => cases work

end Engine

namespace Handlers

theorem takeInnermost?_eq_some {scope : String} {hs hs' : List Handlers} {p : Activity}
    (taken : takeInnermost? scope hs = some (p, hs')) :
    ∃ h ∈ hs, h.compensations.get? scope = some p := by
  induction hs generalizing hs' with
  | nil => cases taken
  | cons h outer ih =>
    rw [takeInnermost?] at taken
    split at taken
    · next q h' found =>
      obtain ⟨q, held, eq⟩ := Option.map_eq_some_iff.mp found
      cases eq
      cases taken
      exact ⟨h, List.mem_cons_self, held⟩
    · obtain ⟨⟨q, rest⟩, found, eq⟩ := Option.map_eq_some_iff.mp taken
      cases eq
      obtain ⟨h', among, held⟩ := ih found
      exact ⟨h', List.mem_cons_of_mem h among, held⟩

theorem held_before {hs hs' : List Handlers} (consumed : List.Forall₂ Consumed hs hs')
    {scope : String} {p : Activity} (held : ∃ h ∈ hs', h.compensations.get? scope = some p) :
    ∃ h ∈ hs, h.compensations.get? scope = some p := by
  induction consumed with
  | nil => exact held
  | @cons h h' hs hs' head tail ih =>
    obtain ⟨g, among, got⟩ := held
    rcases List.mem_cons.mp among with rfl | inner
    · exact ⟨h, List.mem_cons_self, head.compensations scope p got⟩
    · obtain ⟨g', among', got'⟩ := ih ⟨g, inner, got⟩
      exact ⟨g', List.mem_cons_of_mem h among', got'⟩

end Handlers

/-- Of what has happened between the two sessions nothing is left in the variables. The tables have
lost compensations at most, and any that can be taken was held before. -/
structure Session.RolledBack (s s' : Session τ) : Prop where
  env : s'.env = s.env
  tables : List.Forall₂ Handlers.Consumed s.tables s'.tables
  visible : ∀ scope p s'', s'.takeVisible? scope = some (p, s'') →
    ∃ h ∈ s.tables, h.compensations.get? scope = some p

theorem Session.rolledBack_of_consumed {s s' : Session τ} (env : s'.env = s.env)
    (tables : List.Forall₂ Handlers.Consumed s.tables s'.tables) : s.RolledBack s' := by
  refine ⟨env, tables, ?_⟩
  intro scope p s'' taken
  obtain ⟨h, outer, found, -⟩ := takeVisible?_eq taken
  exact Handlers.held_before tables (Handlers.takeInnermost?_eq_some found)

variable [Tracer τ]

def ScopeDefinition.ObservesKill (d : ScopeDefinition) (s : Session τ) (k : Fault) : Prop :=
  Observes d.body (s.opened d.id) k

theorem resolve_of_discarded {id : String} {v : Verdict} (discarded : v.merge = false)
    (s : Session τ) : resolve id v s = s.done := by
  unfold resolve
  rw [discarded]
  cases v.captured <;> rfl

theorem rolledBack_of_discarded {id : String} {v : Verdict} {s s₂ : Session τ} {r : Answer τ Unit}
    (inner : Stands (s.opened id) 0 s₂) (discarded : v.merge = false)
    (left : leave id true v s₂ = r) (ends : ∀ a, r.1 ≠ .error (.abort a)) : s.RolledBack r.2 := by
  subst left
  unfold leave at ends ⊢
  rw [if_pos rfl, discarded] at ends ⊢
  rcases s₂.popScope_cases false with ⟨env, popped, eq⟩ | ⟨-, eq⟩
  · obtain ⟨same, consumed⟩ := inner.discarded popped
    rw [eq]
    change s.RolledBack (resolve id v _).2
    rw [resolve_of_discarded discarded]
    exact rolledBack_of_consumed same consumed
  · rw [eq] at ends
    exact absurd rfl (ends (.structural .scopeUnderflow))

theorem openings_eq_zero {w : Work} {s : Session τ} {starts : List (Start τ)} {v : Verdict}
    {r : Answer τ Unit} (h : Yields w s starts v r) (closes : w.count leavesOpen = 0)
    (stored : s.weight (count leavesOpen) = 0) : openings starts = 0 := by
  have few := h.performs_le leavesOpen
  rw [closes, stored] at few
  unfold openings
  omega

theorem autoPop_of_count {d : ScopeDefinition} (closes : d.activity.count leavesOpen = 0) :
    d.autoPop = true := by
  simp only [count, ScopeDefinition.activity, total, leavesOpen] at closes
  cases pops : d.autoPop with
  | true => rfl
  | false =>
    rw [pops] at closes
    simp at closes

theorem rolledBack_of_observesKill {d : ScopeDefinition} {s : Session τ}
    {k : Fault} (closes : d.activity.count leavesOpen = 0) (stored : s.weight (count leavesOpen) = 0)
    (observed : d.ObservesKill s k) (ends : ∀ a, (d.execute s).1 ≠ .error (.abort a)) :
    s.RolledBack (d.execute s).2 := by
  obtain ⟨starts, derivation⟩ := execute_derivation d s
  have closed := openings_eq_zero derivation closes stored
  generalize d.execute s = r at *
  cases derivation with
  | atomic atom => cases atom
  | unopened push =>
    obtain ⟨-, e, rfl⟩ := pushScope_error push
    exact absurd rfl (ends _)
  | unsettled push settle =>
    obtain ⟨a, rfl⟩ := settle.settle_error
    exact absurd rfl (ends a)
  | settled push settle left =>
    rw [openings_cons] at closed
    rw [opened_of_pushScope push] at settle
    -- No scope inside has left a frame open, so the frame that is closed is the scope's own.
    have inner := settle.stands nofun
    rw [show openings _ = 0 by omega] at inner
    rw [autoPop_of_count closes] at left
    exact rolledBack_of_discarded inner (settle.discards_iff.mpr ⟨k, observed⟩) left ends

/-- If all scopes of a program close their frames then a scope that does not abort and has seen a
kill rolls back, in every session of a run and in every one whose tables hold such scopes only. -/
theorem killed_scope_rolls_back :
    (∀ (τ : Type) [Tracer τ] (program : Program) (host : Host) (tracer : τ),
      program.main.count leavesOpen = 0 →
      let fresh := Session.start host (some program.limits) tracer
      ∃ starts, Yields (.run program.main) fresh starts .clear (program.main.run fresh) ∧
        ∀ x ∈ starts, ∀ (d : ScopeDefinition) (k : Fault), x.work = .perform d.activity →
          d.ObservesKill x.session k → (∀ a, (d.execute x.session).1 ≠ .error (.abort a)) →
          x.session.RolledBack (d.execute x.session).2) ∧
    ∀ (τ : Type) [Tracer τ] (d : ScopeDefinition) (s : Session τ) (k : Fault),
      d.activity.count leavesOpen = 0 → s.weight (count leavesOpen) = 0 → d.ObservesKill s k →
      (∀ a, (d.execute s).1 ≠ .error (.abort a)) → s.RolledBack (d.execute s).2 := by
  constructor
  · intro τ _ program host tracer closes fresh
    obtain ⟨starts, derivation⟩ := run_yields program.main fresh
    refine ⟨starts, derivation, ?_⟩
    intro x started d k performed observed ends
    have few := derivation.count_le leavesOpen x started
    rw [performed] at few
    change d.activity.count leavesOpen + x.session.weight (count leavesOpen) ≤
      program.main.count leavesOpen + 0 at few
    exact rolledBack_of_observesKill (by omega) (by omega) observed ends
  · intro τ _ d s k closes stored observed ends
    exact rolledBack_of_observesKill closes stored observed ends

def doomed : ScopeDefinition where
  id := "order"
  body := .sequence [.assign (.root "paid") (.literal (.str "yes")), .install [(.this, .nil)],
    .kill "Stop" none]
  autoPop := true

theorem doomed_rolls_back :
    doomed.ObservesKill (Session.start .standard none ()) ⟨"Stop", .void⟩ ∧
      (Session.start .standard none ()).RolledBack
        (doomed.execute (Session.start .standard none ())).2 := by
  have returned : doomed.body.run ((Session.start .standard none ()).opened doomed.id) =
      (.ok (), (doomed.body.run ((Session.start .standard none ()).opened doomed.id)).2) := by rfl
  have observed : doomed.ObservesKill (Session.start .standard none ()) ⟨"Stop", .void⟩ :=
    .returned returned (by rfl)
  have ends (a : Abort) : (doomed.execute (Session.start .standard none ())).1 ≠
      .error (.abort a) := nofun
  exact ⟨observed, killed_scope_rolls_back.2 Unit doomed _ _ (by decide) rfl observed ends⟩

end Orchestration
