import Orchestration.Proofs.Promptness
import Orchestration.Proofs.Rollback

/-!
# What takes precedence in a killed scope

A scope looks for a pending request where its body, or a handler in its place, returns, but not
where one raises a fault. So a kill takes precedence over the faults of a compensation, while a
fault without a handler takes precedence over a request that is pending when it is raised: the
frame is merged and the fault leaves the scope. Only a `compensate` lets activities start while
a request is pending, so without one the kill always takes precedence.
-/

set_option autoImplicit false

namespace Orchestration

open Activity Engine Session

variable {τ : Type} [Tracer τ]

namespace Engine

/-- The activity, or the last of the handlers that run in its place, raises a fault for which the
frame has no handler, and ends in the given session. -/
inductive Captures : Activity → Session τ → Fault → Session τ → Prop
  | raised {p : Activity} {s s₁ : Session τ} {f : Fault} : p.run s = (.error (.fault f), s₁) →
      s₁.takeHandler? f.name true = none → Captures p s f s₁
  | dispatched {p h : Activity} {s s₁ s₂ s' : Session τ} {f g : Fault} :
      p.run s = (.error (.fault f), s₁) → s₁.takeHandler? f.name true = some (h, s₂) →
      Captures h ((s₂.delivered f).observe (.faultDispatch s₁.currentScope f.name)) g s' →
      Captures p s g s'

/-- A scope that captures a fault merges its frame and holds the fault, whatever is pending. -/
theorem Yields.of_captures {role : Role} {id : String} {p : Activity} {s s' s₁ : Session τ}
    {starts : List (Start τ)} {v : Verdict} {f : Fault}
    (h : Yields (.settle role id p) s starts v (.ok (), s')) (captures : Captures p s f s₁) :
    v = ⟨true, some f⟩ ∧ s'.pending = s₁.pending := by
  induction captures generalizing role starts with
  | raised ran none =>
    cases h with
    | quiet body | killed body | undone body => rw [body.run_eq] at ran; cases ran
    | captured body =>
      rw [body.run_eq] at ran
      cases ran
      exact ⟨rfl, rfl⟩
    | dispatched body taken handling =>
      rw [body.run_eq] at ran
      cases ran
      rw [none] at taken
      cases taken
  | dispatched ran taken captures ih =>
    cases h with
    | quiet body | killed body | undone body => rw [body.run_eq] at ran; cases ran
    | captured body none =>
      rw [body.run_eq] at ran
      cases ran
      rw [none] at taken
      cases taken
    | dispatched body taken' handling =>
      rw [body.run_eq] at ran
      cases ran
      rw [taken'] at taken
      cases taken
      exact ih handling

theorem Yields.captures_of_merge {role : Role} {id : String} {p : Activity} {s s' : Session τ}
    {starts : List (Start τ)} {v : Verdict}
    (h : Yields (.settle role id p) s starts v (.ok (), s')) (merged : v.merge = true)
    (killed : s'.killed = true) : ∃ f s₁, Captures p s f s₁ := by
  generalize work : Work.settle role id p = w at h
  generalize answer : (Except.ok (), s') = r at h
  induction h generalizing role id p s' with
  | quiet body none ih =>
    cases answer
    rw [Session.killed, none] at killed
    cases killed
  | killed => cases merged
  | undone => cases merged
  | captured body none ih =>
    cases work
    exact ⟨_, _, .raised body.run_eq none⟩
  | dispatched body taken handling ih ih' =>
    cases work
    obtain ⟨f, s₁, captures⟩ := ih' merged killed rfl answer
    exact ⟨f, s₁, .dispatched body.run_eq taken captures⟩
  | interrupted => cases answer
  | aborted => cases answer
  | _ => cases work

end Engine

/-- The body of the scope, started in a frame that is opened in the session, comes to the verdict,
and the frame is to be closed in the later session. -/
def ScopeDefinition.Settles (d : ScopeDefinition) (s : Session τ) (v : Verdict)
    (s' : Session τ) : Prop :=
  ∃ starts, Yields (.settle .body d.id d.body) (s.opened d.id) starts v (.ok (), s')

theorem settles_of_execute {d : ScopeDefinition} {s : Session τ}
    (ends : ∀ a, (d.execute s).1 ≠ .error (.abort a)) :
    ∃ v s', d.Settles s v s' ∧ d.execute s = leave d.id d.autoPop v s' := by
  obtain ⟨starts, derivation⟩ := execute_derivation d s
  generalize d.execute s = r at *
  cases derivation with
  | atomic atom => cases atom
  | unopened push =>
    obtain ⟨-, e, rfl⟩ := pushScope_error push
    exact absurd rfl (ends _)
  | unsettled push settle =>
    obtain ⟨a, rfl⟩ := settle.settle_error
    exact absurd rfl (ends a)
  | settled push settle left =>
    rw [opened_of_pushScope push] at settle
    exact ⟨_, _, ⟨_, settle⟩, left.symm⟩

theorem leave_eq_resolve {id : String} {v : Verdict} {s : Session τ}
    (ends : ∀ a, (leave id true v s).1 ≠ .error (.abort a)) :
    ∃ s', leave id true v s = resolve id v s' := by
  rcases s.popScope_cases v.merge with ⟨env, popped, -⟩ | ⟨-, refused⟩
  · exact ⟨_, leave_of_popped popped⟩
  · unfold leave at ends
    rw [if_pos rfl, refused] at ends
    exact absurd rfl (ends (.structural .scopeUnderflow))

theorem leave_of_discarded {id : String} {v : Verdict} {s : Session τ} (discarded : v.merge = false)
    (ends : ∀ a, (leave id true v s).1 ≠ .error (.abort a)) : (leave id true v s).1 = .ok () := by
  obtain ⟨s', resolved⟩ := leave_eq_resolve ends
  rw [resolved, resolve_of_discarded discarded]
  rfl

theorem leave_of_captured {id : String} {f : Fault} {s : Session τ}
    (ends : ∀ a, (leave id true ⟨true, some f⟩ s).1 ≠ .error (.abort a)) :
    (leave id true ⟨true, some f⟩ s).1 = .error (.fault f) := by
  obtain ⟨s', resolved⟩ := leave_eq_resolve ends
  rw [resolved]
  rfl

/-- The scope gives a kill precedence over faults: if a request is pending where its frame is to be
closed then the frame is discarded and no fault leaves the scope. -/
def ScopeDefinition.KillPrecedes (d : ScopeDefinition) (s : Session τ) : Prop :=
  ∃ v s', d.Settles s v s' ∧ d.execute s = leave d.id d.autoPop v s' ∧
    (s'.killed = true → v.merge = false ∧ (d.execute s).1 = .ok ())

theorem execute_of_captures {d : ScopeDefinition} {s s₁ : Session τ} {f : Fault}
    (closes : d.autoPop = true) (ends : ∀ a, (d.execute s).1 ≠ .error (.abort a))
    (captures : Captures d.body (s.opened d.id) f s₁) : (d.execute s).1 = .error (.fault f) := by
  obtain ⟨v, s', ⟨starts, settle⟩, left⟩ := settles_of_execute ends
  obtain ⟨rfl, -⟩ := settle.of_captures captures
  rw [left, closes] at ends ⊢
  exact leave_of_captured ends

theorem killPrecedes_of_discards {d : ScopeDefinition} {s : Session τ} (closes : d.autoPop = true)
    (ends : ∀ a, (d.execute s).1 ≠ .error (.abort a))
    (discards : ∀ v s', d.Settles s v s' → s'.killed = true → v.merge = false) :
    d.KillPrecedes s := by
  obtain ⟨v, s', settles, left⟩ := settles_of_execute ends
  refine ⟨v, s', settles, left, ?_⟩
  intro killed
  have discarded := discards v s' settles killed
  rw [left, closes] at ends ⊢
  exact ⟨discarded, leave_of_discarded discarded ends⟩

theorem killPrecedes_iff {d : ScopeDefinition} {s : Session τ} (closes : d.autoPop = true)
    (ends : ∀ a, (d.execute s).1 ≠ .error (.abort a)) :
    d.KillPrecedes s ↔ ∀ f s₁, Captures d.body (s.opened d.id) f s₁ → s₁.pending = none := by
  constructor
  · rintro ⟨v, s', ⟨starts, settle⟩, -, precedes⟩ f s₁ captures
    obtain ⟨rfl, same⟩ := settle.of_captures captures
    cases pending : s₁.pending with
    | none => rfl
    | some k =>
      have killed : s'.killed = true := by rw [Session.killed, same, pending]; rfl
      cases (precedes killed).1
  · intro quiet
    apply killPrecedes_of_discards closes ends
    rintro v s' ⟨starts, settle⟩ killed
    rw [Bool.eq_false_iff]
    intro merged
    obtain ⟨f, s₁, captures⟩ := settle.captures_of_merge merged killed
    rw [Session.killed, (settle.of_captures captures).2, quiet f s₁ captures] at killed
    cases killed

theorem killPrecedes_of_free {d : ScopeDefinition} {s : Session τ}
    (free : d.activity.count compensates + s.weight (count compensates) = 0)
    (quiet : s.pending = none) (closes : d.autoPop = true)
    (ends : ∀ a, (d.execute s).1 ≠ .error (.abort a)) : d.KillPrecedes s := by
  have inside : d.body.count compensates + (s.opened d.id).weight (count compensates) = 0 := by
    have body : d.activity.count compensates = d.body.count compensates := Nat.zero_add _
    have tables : (s.opened d.id).weight (count compensates) = s.weight (count compensates) :=
      Nat.zero_add _
    rw [← body, tables, free]
  apply killPrecedes_of_discards closes ends
  rintro v s' ⟨starts, settle⟩ killed
  rw [Bool.eq_false_iff]
  intro merged
  rw [Session.killed, (settle.prompt (settle.free inside) quiet).merged trivial rfl merged] at killed
  cases killed

theorem main_scope_started {d : ScopeDefinition} {s s₁ : Session τ} {starts : List (Start τ)}
    {v : Verdict} {r : Answer τ Unit} (h : Yields (.run d.activity) s starts v r)
    (step : s.step = (.ok (), s₁)) : ⟨.perform d.activity, s₁⟩ ∈ starts := by
  cases h with
  | refused step' => cases step.symm.trans step'
  | stepped step' rest =>
    cases step.symm.trans step'
    obtain ⟨parts, rfl⟩ := rest.head
    exact List.mem_cons_of_mem _ List.mem_cons_self

/-- A scope that is killed and then undoes its work by hand, which fails. -/
def undoing : ScopeDefinition where
  id := "order"
  body := .sequence [.install [(.this, .throw "UndoFailed" none)], .kill "Stop" none,
    .compensate "order"]
  autoPop := true

def entered : Session Unit := (Session.start .standard (some .none) ()).step.2

theorem undoing_raises : (undoing.execute entered).1 = .error (.fault ⟨"UndoFailed", .void⟩) := rfl

theorem undoing_captures : ∃ s₁, s₁.pending = some ⟨"Stop", .void⟩ ∧
    Captures undoing.body (entered.opened undoing.id) ⟨"UndoFailed", .void⟩ s₁ :=
  ⟨_, rfl, .raised rfl rfl⟩

theorem undoing_ends (a : Abort) : (undoing.execute entered).1 ≠ .error (.abort a) := by
  rw [undoing_raises]
  exact fault_ne_abort _ a

/-- In a run whose scopes all close their frames, a scope that does not abort gives a kill
precedence exactly if nothing is pending where it captures a fault, which is what it raises
otherwise. Without `compensate` a kill takes precedence in every scope. -/
theorem kill_precedes_unless_captured (τ : Type) [Tracer τ] (main : Activity) (host : Host)
    (limits : Option Limits) (tracer : τ) (closes : main.count leavesOpen = 0) :
    let fresh := Session.start host limits tracer
    ∃ starts, Yields (.run main) fresh starts .clear (main.run fresh) ∧
      ∀ x ∈ starts, ∀ d : ScopeDefinition, x.work = .perform d.activity →
        (∀ a, (d.execute x.session).1 ≠ .error (.abort a)) →
        (d.KillPrecedes x.session ↔
          ∀ f s₁, Captures d.body (x.session.opened d.id) f s₁ → s₁.pending = none) ∧
        (∀ f s₁, Captures d.body (x.session.opened d.id) f s₁ →
          (d.execute x.session).1 = .error (.fault f)) ∧
        (main.count compensates = 0 → d.KillPrecedes x.session) := by
  intro fresh
  obtain ⟨starts, derivation⟩ := run_yields main fresh
  refine ⟨starts, derivation, ?_⟩
  intro x started d performed ends
  have few := derivation.count_le leavesOpen x started
  rw [performed] at few
  have own : d.activity.count leavesOpen = 0 := by
    change d.activity.count leavesOpen + x.session.weight (count leavesOpen) ≤
      main.count leavesOpen + 0 at few
    omega
  have pops := autoPop_of_count own
  refine ⟨killPrecedes_iff pops ends, fun f s₁ => execute_of_captures pops ends, ?_⟩
  intro free
  have everywhere : Free starts := derivation.free (by rw [Work.count, free]; rfl)
  have here := everywhere x started
  have quiet := (derivation.prompt everywhere rfl).entered x started (by rw [performed]; exact id)
  rw [performed] at here
  exact killPrecedes_of_free here quiet pops ends

theorem undoing_yields_to_its_fault :
    undoing.activity.count leavesOpen = 0 ∧ ¬ undoing.KillPrecedes entered ∧
      job.activity.count leavesOpen = 0 ∧ job.KillPrecedes entered := by
  have undoingCloses : undoing.activity.count leavesOpen = 0 := by decide
  have jobCloses : job.activity.count leavesOpen = 0 := by decide
  refine ⟨undoingCloses, ?_, jobCloses, ?_⟩
  · obtain ⟨starts, derivation, precedence⟩ := kill_precedes_unless_captured Unit undoing.activity
      .standard (some .none) () undoingCloses
    have started : ⟨.perform undoing.activity, entered⟩ ∈ starts :=
      main_scope_started derivation rfl
    obtain ⟨s₁, pending, captures⟩ := undoing_captures
    intro precedes
    have none := (precedence _ started undoing rfl undoing_ends).1.mp precedes _ _ captures
    cases pending.symm.trans none
  · obtain ⟨starts, derivation, precedence⟩ := kill_precedes_unless_captured Unit job.activity
      .standard (some .none) () jobCloses
    have started : ⟨.perform job.activity, entered⟩ ∈ starts := main_scope_started derivation rfl
    exact (precedence _ started job rfl ok_ne_abort).2.2 (by decide)

theorem failed_undo_outruns_kill :
    ¬ ∀ (program : Program), program.main.count leavesOpen = 0 →
      let fresh := Session.start .standard (some program.limits) ()
      ∀ starts, Yields (.run program.main) fresh starts .clear (program.main.run fresh) →
        ∀ x ∈ starts, ∀ d : ScopeDefinition, x.work = .perform d.activity →
          (∀ a, (d.execute x.session).1 ≠ .error (.abort a)) → d.KillPrecedes x.session := by
  intro claim
  obtain ⟨starts, derivation⟩ :=
    run_yields undoing.activity (Session.start .standard (some .none) ())
  have started : ⟨.perform undoing.activity, entered⟩ ∈ starts := main_scope_started derivation rfl
  have precedes := claim ⟨undoing.activity, .none⟩ (by decide) starts derivation _ started undoing
    rfl undoing_ends
  obtain ⟨s₁, pending, captures⟩ := undoing_captures
  have none := (killPrecedes_iff rfl undoing_ends).mp precedes _ _ captures
  cases pending.symm.trans none

example : (Program.run ⟨undoing.activity, .none⟩ .standard ()).1 =
    .error (.uncaught ⟨"UndoFailed", .void⟩) := by rfl

end Orchestration
