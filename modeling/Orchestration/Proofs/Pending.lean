import Orchestration.Proofs.Operations

/-!
# Termination is never lost

A compensation runs with the request to terminate out of the way, and the request is put
back when the compensation has been settled. Settling never ends in a fault, so nothing
leads past the place where the request is put back, unless the session aborts. All
requests come from the `kill` activities of the run.
-/

set_option autoImplicit false

namespace Orchestration

namespace Engine

variable {τ : Type}

def requests (starts : List (Start τ)) : List Fault := starts.filterMap Start.request?

theorem requests_cons (x : Start τ) (starts : List (Start τ)) :
    requests (x :: starts) = x.request?.toList ++ requests starts := by
  unfold requests
  cases found : x.request? <;> simp [found]

theorem requests_append (starts starts' : List (Start τ)) :
    requests (starts ++ starts') = requests starts ++ requests starts' :=
  List.filterMap_append

/-- The later session is to terminate if the earlier one is or one of the requests has been made,
and on one of these grounds. -/
def Carries (s : Session τ) (fs : List Fault) (s' : Session τ) : Prop :=
  (s'.killed = true ↔ s.killed = true ∨ fs ≠ []) ∧
    ∀ f, s'.pending = some f → s.pending = some f ∨ f ∈ fs

theorem carries_of_pending_eq {s s' : Session τ} (same : s'.pending = s.pending) :
    Carries s [] s' := by
  constructor
  · rw [Session.killed, same]
    simp [Session.killed]
  · intro f pending
    rw [same] at pending
    exact .inl pending

theorem Carries.append {s s' s'' : Session τ} {fs fs' : List Fault} (first : Carries s fs s')
    (second : Carries s' fs' s'') : Carries s (fs ++ fs') s'' := by
  constructor
  · rw [second.1, first.1, or_assoc]
    simp only [ne_eq, List.append_eq_nil_iff]
    by_cases none : fs = [] <;> simp [none]
  · intro f pending
    rcases second.2 f pending with before | made
    · rcases first.2 f before with before | made
      · exact .inl before
      · exact .inr (List.mem_append_left _ made)
    · exact .inr (List.mem_append_right _ made)

theorem Carries.restore {s s' s'' : Session τ} {fs : List Fault} {k : Fault}
    (first : Carries s fs s') (pending : s'.pending = some k) (restored : s''.pending = some k)
    (meanwhile : List Fault) : Carries s (fs ++ meanwhile) s'' := by
  have killed : s.killed = true ∨ fs ≠ [] := by
    rw [← first.1, Session.killed, pending]
    rfl
  constructor
  · rw [Session.killed, restored]
    rcases killed with before | made
    · simp [before]
    · simp [made]
  · intro f found
    rw [restored, ← pending] at found
    rcases first.2 f found with before | made
    · exact .inl before
    · exact .inr (List.mem_append_left _ made)

theorem carries_atomic {p : Activity} {s : Session τ} {r : Answer τ Unit}
    (atom : atomic? p s = some r) : Carries s (Start.mk (.perform p) s).request?.toList r.2 := by
  obtain ⟨env, handlers, pending, calls, output, eq, -, -, requested⟩ := atomic_snd atom
  rw [eq]
  cases request : (Start.mk (.perform p) s).request? with
  | none =>
    rw [request] at requested
    exact carries_of_pending_eq requested
  | some f =>
    rw [request] at requested
    subst requested
    constructor
    · simp [Session.killed]
    · intro g found
      cases found
      exact .inr (List.mem_singleton_self _)

variable [Tracer τ]

theorem pending_pushScope {s s₁ : Session τ} {id : String} {e : Except Stop Unit}
    (push : s.pushScope id = (e, s₁)) : s₁.pending = s.pending := by
  rcases s.pushScope_cases id with eq | ⟨e, eq⟩ <;> rw [eq] at push <;> cases push <;> rfl

theorem pending_leave {id : String} {autoPop : Bool} {v : Verdict} {s : Session τ}
    {r : Answer τ Unit} (left : leave id autoPop v s = r) : r.2.pending = s.pending := by
  obtain ⟨env, handlers, enclosing, tracer, eq⟩ := leave_snd id autoPop v s
  rw [← left, eq]

/-- Every request of a run that does not abort is still there at its end. -/
theorem Yields.carries {w : Work} {s : Session τ} {starts : List (Start τ)} {v : Verdict}
    {r : Answer τ Unit} (h : Yields w s starts v r) (ends : ∀ a, r.1 ≠ .error (.abort a)) :
    Carries s (requests starts) r.2 := by
  induction h with
  | refused step => exact carries_of_pending_eq (by rw [Session.stepped_eq step])
  | stepped step rest ih =>
    rw [requests_cons]
    have counted := carries_of_pending_eq (congrArg Session.pending (Session.stepped_eq step))
    exact counted.append (ih ends)
  | @atomic p s r atom =>
    rw [requests_cons]
    exact (carries_atomic atom).append (carries_of_pending_eq rfl)
  | sequence children ih => exact ih ends
  | parallel children ih => exact ih ends
  | found taken undo ih =>
    obtain ⟨h, outer, -, eq⟩ := Session.takeVisible?_eq taken
    have took := carries_of_pending_eq (congrArg Session.pending eq)
    exact took.append (ih ends)
  | unopened push => exact carries_of_pending_eq (pending_pushScope push)
  | unsettled push settle ih =>
    exact (carries_of_pending_eq (pending_pushScope push)).append (ih ends)
  | settled push settle left ih =>
    have opened := carries_of_pending_eq (pending_pushScope push)
    have closed := carries_of_pending_eq (pending_leave left)
    have whole := (opened.append (ih (by nofun))).append closed
    rw [List.append_nil] at whole
    exact whole
  | finished => exact carries_of_pending_eq rfl
  | passed passes rest ih => exact ih ends
  | next stays first rest ih ih' =>
    rw [requests_cons, requests_append]
    exact (ih (by nofun)).append (ih' ends)
  | stopped stays first ih => exact ih ends
  | quiet body none ih => exact ih ends
  | @killed role id p s s₁ starts k body pending none ih =>
    have told : Carries s₁ [] (s₁.observe (.killObserved id k.name)) := carries_of_pending_eq rfl
    have whole := (ih (by nofun)).append told
    rw [List.append_nil] at whole
    exact whole
  | undone body pending taken undo ih ih' =>
    rw [requests_cons, requests_append]
    -- What the compensation requests meanwhile gives way to the request that is put back.
    exact (ih (by nofun)).restore pending rfl _
  | interrupted body pending taken undo ih ih' =>
    -- Only an abort leads past the place where the request is put back.
    obtain ⟨a, rfl⟩ := undo.settle_error
    exact absurd rfl (ends a)
  | @captured role id p s s₁ starts f body none ih =>
    have told : Carries s₁ [] (s₁.observe (.faultCaptured s₁.currentScope f.name)) :=
      carries_of_pending_eq rfl
    have whole := (ih (by nofun)).append told
    rw [List.append_nil] at whole
    exact whole
  | @dispatched role id p h s s₁ s₂ starts starts' f v r body taken handling ih ih' =>
    obtain ⟨h, -, eq⟩ := Session.takeHandler?_eq taken
    have same : s₂.pending = s₁.pending := by rw [eq]
    have took : Carries s₁ [] ((s₂.delivered f).observe (.faultDispatch s₁.currentScope f.name)) :=
      carries_of_pending_eq same
    rw [requests_cons, requests_append]
    exact (ih (by nofun)).append (took.append (ih' ends))
  | aborted body ih => exact absurd rfl (ends _)

end Engine

open Engine

variable {τ : Type} [Tracer τ]

theorem pending_of_fresh {p : Activity} {host : Host} {limits : Option Limits} {tracer : τ}
    {starts : List (Start τ)} {v : Verdict} {r : Answer τ Unit}
    (h : Yields (.run p) (Session.start host limits tracer) starts v r)
    (ends : ∀ a, r.1 ≠ .error (.abort a)) :
    (r.2.pending = none ↔ ∀ x ∈ starts, x.request? = none) ∧
      ∀ f, r.2.pending = some f → ∃ x ∈ starts, x.request? = some f := by
  obtain ⟨killed, grounds⟩ := h.carries ends
  have origin (f : Fault) (pending : r.2.pending = some f) : ∃ x ∈ starts, x.request? = some f := by
    rcases grounds f pending with before | made
    · cases before
    · exact List.mem_filterMap.mp made
  refine ⟨?_, origin⟩
  constructor
  · intro none
    rw [← List.filterMap_eq_nil_iff]
    apply Classical.byContradiction
    intro made
    have still := killed.mpr (.inr made)
    rw [Session.killed, none] at still
    cases still
  · intro none
    cases pending : r.2.pending with
    | none => rfl
    | some f =>
      obtain ⟨x, started, made⟩ := origin f pending
      rw [none x started] at made
      cases made

/-- A run that does not abort keeps a pending termination. So a program completes exactly when
its main activity returns and nothing has requested termination, and when it is terminated then
by a fault that a `kill` activity of the run has requested. -/
theorem termination_is_never_lost :
    (∀ (τ : Type) [Tracer τ] (p : Activity) (s : Session τ), s.killed = true →
      (∀ a, (p.run s).1 ≠ .error (.abort a)) → (p.run s).2.killed = true) ∧
    ∀ (τ : Type) [Tracer τ] (program : Program) (host : Host) (tracer : τ),
      let fresh := Session.start host (some program.limits) tracer
      ∃ starts, Yields (.run program.main) fresh starts .clear (program.main.run fresh) ∧
        ((program.run host tracer).1 = .ok .completed ↔
          (program.main.run fresh).1 = .ok () ∧ ∀ x ∈ starts, x.request? = none) ∧
        ∀ f, (program.run host tracer).1 = .ok (.terminated f) →
          ∃ x ∈ starts, x.request? = some f := by
  constructor
  · intro τ _ p s killed ends
    obtain ⟨starts, derivation⟩ := run_yields p s
    exact (derivation.carries ends).1.mpr (.inl killed)
  · intro τ _ program host tracer
    obtain ⟨starts, derivation⟩ := run_yields program.main
      (.start host (some program.limits) tracer)
    have ends (a : Abort) (returned : (program.main.run (.start host (some program.limits)
        tracer)).1 = .ok ()) : (program.main.run (.start host (some program.limits) tracer)).1 ≠
          .error (.abort a) := by
      rw [returned]
      nofun
    refine ⟨starts, derivation, ?_, ?_⟩
    · rw [Program.run_fst, Program.conclude_eq_completed]
      apply and_congr_right
      intro returned
      exact (pending_of_fresh derivation fun a => ends a returned).1
    · intro f ended
      rw [Program.run_fst] at ended
      obtain ⟨returned, pending⟩ := Program.conclude_eq_terminated ended
      exact (pending_of_fresh derivation fun a => ends a returned).2 f pending

def bookBack : Activity := .sequence [.print [.literal (.str "booked back")], .kill "Again" none]

def transfer : Activity := .scope "transfer" (.install [(.this, bookBack)]) true

def cancelled : Program where
  main := .scope "transfer" (.sequence [.install [(.this, bookBack)],
    .kill "Stop" (some (.literal (.str "operator")))]) true
  limits := ⟨none, none, none⟩

/-- That the line is printed shows that the compensation has been run with the request cleared. -/
theorem transfer_keeps_its_request :
    let start := (Session.start .standard none ()).kill ⟨"Closing", .void⟩
    let stop : Fault := ⟨"Stop", .str "operator"⟩
    let fresh := Session.start .standard (some cancelled.limits) ()
    start.killed = true ∧ (transfer.run start).1 = .ok () ∧
      (transfer.run start).2.calls = [.push '\n', .write "booked back"] ∧
      (transfer.run start).2.killed = true ∧
      (cancelled.run .standard ()).1 = .ok (.terminated stop) ∧
      (cancelled.run .standard ()).2.calls = (transfer.run start).2.calls ∧
      ∃ starts, Yields (.run cancelled.main) fresh starts .clear (cancelled.main.run fresh) ∧
        ∃ x ∈ starts, x.request? = some stop := by
  intro start stop fresh
  obtain ⟨kept, ended⟩ := termination_is_never_lost
  have ran : (transfer.run start).1 = .ok () := by rfl
  have undone : (transfer.run start).2.calls = [.push '\n', .write "booked back"] := by
    decide +kernel
  have undone' : (cancelled.run .standard ()).2.calls = (transfer.run start).2.calls := by
    decide +kernel
  have terminated : (cancelled.run .standard ()).1 = .ok (.terminated stop) := by rfl
  obtain ⟨starts, derivation, -, requested⟩ := ended Unit cancelled .standard ()
  refine ⟨rfl, ran, undone, kept Unit transfer start rfl ?_, terminated, undone', starts,
    derivation, requested stop terminated⟩
  rw [ran]
  nofun

end Orchestration
