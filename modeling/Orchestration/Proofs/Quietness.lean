import Orchestration.Proofs.Events
import Orchestration.Proofs.Frames
import Orchestration.Proofs.Widening

/-!
# Quiet works in calm sessions

An activity that neither kills nor installs anything, and whose scopes all close their frames, leaves
a session as calm as it was: with nothing pending and with no handler in any table. There is nothing
to dispatch a fault to then and nothing to undo, and every frame that is closed is merged.
-/

set_option autoImplicit false

namespace Orchestration

open Activity

def Event.discards : Event → Bool
  | .scopePop _ merged _ => !merged
  | _ => false

/-- Whether an activity may stop the frame around it, or one of its own, from being merged. -/
def disturbs : Activity → Bool
  | .install _ => true
  | .kill .. => true
  | .scope _ _ autoPop => !autoPop
  | _ => false

theorem count_sequence {kind : Activity → Bool} {ps : List Activity}
    (none : (sequence ps).count kind = 0) : totalOf (fun q => (kind q).toNat) ps = 0 := by
  rw [count, total] at none
  omega

theorem count_parallel {kind : Activity → Bool} {ps : List Activity}
    (none : (parallel ps).count kind = 0) : totalOf (fun q => (kind q).toNat) ps = 0 := by
  rw [count, total] at none
  omega

theorem count_scope {id : String} {body : Activity} {autoPop : Bool}
    (none : (scope id body autoPop).count disturbs = 0) :
    autoPop = true ∧ body.count disturbs = 0 := by
  rw [count, total] at none
  cases autoPop with
  | true => exact ⟨rfl, by rw [count]; omega⟩
  | false => simp [disturbs] at none

theorem count_cons {kind : Activity → Bool} {p : Activity} {ps : List Activity}
    (none : totalOf (fun q => (kind q).toNat) (p :: ps) = 0) :
    p.count kind = 0 ∧ totalOf (fun q => (kind q).toNat) ps = 0 := by
  rw [totalOf] at none
  rw [count]
  omega

namespace Handlers

theorem takeInnermost?_of_empty {scope : String} {hs : List Handlers} (none : ∀ h ∈ hs, h = empty) :
    takeInnermost? scope hs = Option.none := by
  induction hs with
  | nil => rfl
  | cons h outer ih =>
    obtain rfl := none h List.mem_cons_self
    rw [takeInnermost?, ih fun h among => none h (List.mem_cons_of_mem _ among)]
    rfl

end Handlers

namespace Session

variable {τ : Type}

/-- Nothing is pending, and there is no handler and no compensation in any table. -/
structure Calm (s : Session τ) : Prop where
  pending : s.pending = none
  tables : ∀ h ∈ s.tables, h = .empty

theorem Calm.of_eq {s s' : Session τ} (calm : s.Calm) (pending : s'.pending = s.pending)
    (tables : s'.tables = s.tables) : s'.Calm where
  pending := pending.trans calm.pending
  tables := by
    rw [tables]
    exact calm.tables

theorem Calm.stays {s : Session τ} (calm : s.Calm) (p : Activity) :
    (s.killed && p.killable) = false := by
  have not_killed : s.killed = false := congrArg Option.isSome calm.pending
  rw [not_killed]
  rfl

theorem Calm.takeVisible? {s : Session τ} (calm : s.Calm) (scope : String) :
    s.takeVisible? scope = none := by
  unfold Session.takeVisible?
  rw [Handlers.takeInnermost?_of_empty calm.tables]

theorem Calm.takeHandler? {s : Session τ} (calm : s.Calm) (name : String) (orFallback : Bool) :
    s.takeHandler? name orFallback = none := by
  unfold Session.takeHandler?
  rw [calm.tables s.handlers List.mem_cons_self]
  cases orFallback <;> rfl

/-- Neither the number of steps nor the time is limited. -/
structure Unhurried (s : Session τ) : Prop where
  operations : s.effectiveLimits.maxOperations = none
  duration : s.effectiveLimits.maxDuration = none

theorem Unhurried.of_eq {s s' : Session τ} (unhurried : s.Unhurried) (limits : s'.limits = s.limits) :
    s'.Unhurried := by
  obtain ⟨operations, duration⟩ := unhurried
  constructor <;> unfold effectiveLimits <;> rw [limits] <;> assumption

theorem Unhurried.step {s : Session τ} (unhurried : s.Unhurried) :
    s.step = (.ok (), { s with steps := s.steps + 1 }) := by
  apply step_of_passed
  unfold refusal?
  rw [Limits.stepError?_untimed unhurried.duration, unhurried.operations]
  rfl

variable [Tracer τ]

def Merges (s s' : Session τ) : Prop := ∃ es, s.Logs es s' ∧ ∀ e ∈ es, e.discards = false

theorem merges_of_logs {s s' : Session τ} (logs : s.Logs [] s') : s.Merges s' := ⟨[], logs, nofun⟩

theorem Merges.trans {s s' s'' : Session τ} (first : s.Merges s') (second : s'.Merges s'') :
    s.Merges s'' := by
  obtain ⟨es, logs, kept⟩ := first
  obtain ⟨es', logs', kept'⟩ := second
  refine ⟨es ++ es', logs.append logs', ?_⟩
  intro e among
  rcases List.mem_append.mp among with left | right
  · exact kept e left
  · exact kept' e right

theorem merges_of_event {s s' : Session τ} {e : Event} (logs : s.Logs [e] s')
    (kept : e.discards = false) : s.Merges s' := by
  refine ⟨[e], logs, ?_⟩
  intro e' among
  rw [List.mem_singleton.mp among]
  exact kept

/-- What a calm session comes to in which nothing is disturbed: it stays calm, and frames are only
merged, also the one that the verdict is on. -/
structure Calmly (s : Session τ) (v : Verdict) (s' : Session τ) : Prop where
  calm : s'.Calm
  verdict : v.merge = true
  merges : s.Merges s'

theorem Calm.calmly {s : Session τ} (calm : s.Calm) : Calmly s .clear s :=
  ⟨calm, rfl, merges_of_logs s.logs_refl⟩

theorem Calmly.trans {s s' s'' : Session τ} {v v' : Verdict} (first : Calmly s v s')
    (second : Calmly s' v' s'') : Calmly s v' s'' :=
  ⟨second.calm, second.verdict, first.merges.trans second.merges⟩

theorem Calm.opened {s : Session τ} (calm : s.Calm) (scope : String) :
    Calmly s .clear (s.opened scope) where
  calm := by
    refine ⟨calm.pending, ?_⟩
    intro h among
    rcases List.mem_cons.mp among with rfl | below
    · rfl
    · exact calm.tables h below
  verdict := rfl
  merges := merges_of_event rfl rfl

theorem Calm.closed {s : Session τ} (calm : s.Calm) (env : Environment) :
    Calmly s .clear (s.closed true env) where
  calm := by
    have handlers : (s.closed true env).handlers = .empty := by
      have own := calm.tables s.handlers List.mem_cons_self
      unfold Session.closed
      cases enclosing : s.enclosing with
      | nil => exact own
      | cons parent outer =>
        have around : parent = .empty := calm.tables parent (by simp [Session.tables, enclosing])
        change parent.absorb s.handlers = .empty
        rw [own, around]
        rfl
    constructor
    · obtain ⟨_, _, _, eq⟩ := s.closed_eq true env
      rw [eq]
      exact calm.pending
    · intro h among
      rcases List.mem_cons.mp among with rfl | below
      · exact handlers
      · rw [tables_closed] at below
        exact calm.tables h (List.mem_cons_of_mem _ (List.mem_of_mem_tail below))
  verdict := rfl
  merges := merges_of_event (s.logs_closed true env) rfl

end Session

namespace Engine

open Session

variable {τ : Type}

theorem calm_atomic {p : Activity} {s : Session τ} {r : Answer τ Unit}
    (atom : atomic? p s = some r) (quiet : p.count disturbs = 0) (calm : s.Calm) : r.2.Calm := by
  cases p with
  | assign path value =>
    cases atom
    rw [write_snd]
    exact calm.of_eq rfl rfl
  | print parts =>
    cases atom
    obtain ⟨calls, output, eq⟩ :=
      offerAll_snd (lineCalls (parts.map fun e => (e.eval s.env).text)) s
    rw [printLine, eq]
    exact calm.of_eq rfl rfl
  | compensate scope =>
    rw [atomic?, calm.takeVisible?] at atom
    cases atom
    exact calm
  | kill | install => simp [count, total, disturbs] at quiet
  | nil | throw | exit => cases atom; exact calm
  | sequence | parallel | scope => cases atom

variable [Tracer τ]

theorem calmly_resolve {s : Session τ} (calm : s.Calm) (id : String) (v : Verdict) :
    Calmly s .clear (resolve id v s).2 := by
  unfold resolve
  split
  · split
    · exact ⟨calm.of_eq rfl rfl, rfl, merges_of_event (s.logs_observe _) rfl⟩
    · exact calm.calmly
  · exact calm.calmly

theorem calmly_leave {s : Session τ} (calm : s.Calm) (id : String) {v : Verdict}
    (merge : v.merge = true) : Calmly s .clear (leave id true v s).2 := by
  unfold leave
  rw [if_pos rfl, merge]
  rcases s.popScope_cases true with ⟨env, -, eq⟩ | ⟨-, eq⟩ <;> rw [eq]
  · have closed := calm.closed env
    exact closed.trans (calmly_resolve closed.calm id v)
  · exact calm.calmly

theorem Yields.calmly {w : Work} {s : Session τ} {starts : List (Start τ)} {v : Verdict}
    {r : Answer τ Unit} (h : Yields w s starts v r) (quiet : w.count disturbs = 0)
    (calm : s.Calm) : Calmly s v r.2 := by
  induction h with
  | @refused p s s₁ stop step =>
    cases stepped_eq step
    exact ⟨calm.of_eq rfl rfl, rfl, merges_of_logs rfl⟩
  | @stepped p s s₁ starts r step rest ih =>
    cases stepped_eq step
    have counted : s.Calmly .clear { s with steps := s.steps + 1 } :=
      ⟨calm.of_eq rfl rfl, rfl, merges_of_logs rfl⟩
    exact counted.trans (ih quiet counted.calm)
  | atomic atom => exact ⟨calm_atomic atom quiet calm, rfl, merges_of_logs (logs_atomic atom)⟩
  | sequence children ih => exact ih (count_sequence quiet) calm
  | parallel children ih => exact ih (count_parallel quiet) calm
  | found taken undo ih =>
    rw [calm.takeVisible?] at taken
    cases taken
  | unopened push =>
    obtain ⟨rfl, -⟩ := pushScope_error push
    exact calm.calmly
  | @unsettled id body autoPop s s₁ s₂ starts stop v push settle ih =>
    cases opened_of_pushScope push
    have opened := calm.opened id
    have settled := opened.trans (ih (count_scope quiet).2 opened.calm)
    exact ⟨settled.calm, rfl, settled.merges⟩
  | @settled id body autoPop s s₁ s₂ starts v r push settle left ih =>
    cases opened_of_pushScope push
    have opened := calm.opened id
    have settled := opened.trans (ih (count_scope quiet).2 opened.calm)
    subst left
    rw [(count_scope quiet).1]
    exact settled.trans (calmly_leave settled.calm _ settled.verdict)
  | finished => exact calm.calmly
  | passed passes rest ih => cases (calm.stays _).symm.trans passes
  | next stays first rest ih ih' =>
    obtain ⟨here, others⟩ := count_cons quiet
    have begun := ih here calm
    exact begun.trans (ih' others begun.calm)
  | stopped stays first ih => exact ih (count_cons quiet).1 calm
  | quiet body none ih => exact ih quiet calm
  | killed body pending _ ih | undone body pending _ _ ih | interrupted body pending _ _ ih =>
    cases (ih quiet calm).calm.pending.symm.trans pending
  | captured body none ih =>
    have body := ih quiet calm
    exact ⟨body.calm.of_eq rfl rfl, rfl, body.merges.trans (merges_of_event rfl rfl)⟩
  | dispatched body taken handling ih ih' =>
    rw [(ih quiet calm).calm.takeHandler?] at taken
    cases taken
  | aborted body ih => exact ih quiet calm

end Engine

end Orchestration
