import Orchestration.Proofs.Freezing
import Orchestration.Proofs.Tracking

/-!
# The open frames are accounted for

Frames and handler tables are opened and closed together, and each opening and closing is an event.
A scope closes a frame only after it has opened one, though not always the one that it has opened:
where a scope inside it leaves its own frame open, that is the frame which is closed. Either way a
work never gets below the frame that was current when it started.
-/

set_option autoImplicit false

namespace Orchestration

open Engine Session

/-! ## Frames above the first one -/

/-- At no time have the events closed more frames than they have opened. -/
def Grounded (es : List Event) : Prop := ∀ before, before <+: es → pops before ≤ pushes before

theorem grounded_of_no_pops {es : List Event} (none : pops es = 0) : Grounded es := by
  intro before first
  have few : pops before ≤ pops es := first.sublist.countP_le
  omega

theorem Grounded.append {es es' : List Event} (first : Grounded es) (second : Grounded es') :
    Grounded (es ++ es') := by
  intro before start
  rcases List.prefix_or_prefix_of_prefix start (List.prefix_append es es') with inside | beyond
  · exact first before inside
  · obtain ⟨rest, rfl⟩ := beyond
    have own := first es List.prefix_rfl
    have other := second rest ((List.prefix_append_right_inj es).mp start)
    rw [pushes_append, pops_append]
    omega

theorem Grounded.block {es : List Event} (inner : Grounded es) {id closed : String}
    {opens closes : Nat} {merged : Bool} :
    Grounded (.scopePush id opens :: es ++ [.scopePop closed merged closes]) := by
  have first : Grounded [.scopePush id opens] := grounded_of_no_pops rfl
  intro before start
  rcases List.prefix_concat_iff.mp start with rfl | inside
  · have level := inner es List.prefix_rfl
    rw [pushes_append, pops_append, pushes_push, pops_push]
    change _ + 1 ≤ _ + 1 + 0
    omega
  · exact first.append inner before inside

namespace Session

variable {τ : Type} [Tracer τ]

/-- Between the two sessions the events of the list have happened. They open and close frames above
those of the earlier session only, and as many more frames are open in the later one as the events
have opened and not closed. -/
structure Climbs (s : Session τ) (es : List Event) (s' : Session τ) : Prop where
  logs : s.Logs es s'
  grounded : Grounded es
  stands : ∃ n, n + pops es = pushes es ∧ s.Stands n s'

theorem Climbs.depth {s s' : Session τ} {es : List Event} (h : s.Climbs es s') :
    s'.depth + pops es = s.depth + pushes es := by
  obtain ⟨n, open', stands⟩ := h.stands
  rw [stands.depth_eq]
  omega

theorem Climbs.depth_le {s s' : Session τ} {es : List Event} (h : s.Climbs es s') :
    s.depth ≤ s'.depth := by
  obtain ⟨n, -, stands⟩ := h.stands
  rw [stands.depth_eq]
  omega

theorem climbs_level {s s' : Session τ} {es : List Event} (logs : s.Logs es s')
    (stands : s.Stands 0 s') (opens : pushes es = 0) (closes : pops es = 0) : s.Climbs es s' :=
  ⟨logs, grounded_of_no_pops closes, 0, by omega, stands⟩

theorem climbs_refl (s : Session τ) : s.Climbs [] s :=
  climbs_level s.logs_refl (stands_refl s) rfl rfl

theorem Climbs.append {s s' s'' : Session τ} {es es' : List Event} (first : s.Climbs es s')
    (second : s'.Climbs es' s'') : s.Climbs (es ++ es') s'' := by
  obtain ⟨n, opened, stands⟩ := first.stands
  obtain ⟨m, opened', stands'⟩ := second.stands
  refine ⟨first.logs.append second.logs, first.grounded.append second.grounded, n + m, ?_,
    stands.trans stands'⟩
  rw [pushes_append, pops_append]
  omega

theorem climbs_opened (s : Session τ) (id : String) :
    s.Climbs [.scopePush id (s.depth + 1)] (s.opened id) :=
  ⟨rfl, grounded_of_no_pops rfl, 1, rfl, s.stands_opened id⟩

theorem Climbs.closed {s s₂ : Session τ} {id : String} {es : List Event} {merge : Bool}
    {env : Environment} (inner : (s.opened id).Climbs es s₂)
    (popped : s₂.env.pop? merge = some env) :
    s.Climbs (.scopePush id (s.depth + 1) :: es ++ [.scopePop s₂.currentScope merge env.depth])
      (s₂.closed merge env) := by
  obtain ⟨n, opened, stands⟩ := inner.stands
  refine ⟨?_, inner.grounded.block, n, ?_, stands.closed popped⟩
  · exact ((s.climbs_opened id).logs.append inner.logs).append (s₂.logs_closed merge env)
  · rw [pushes_append, pops_append, pushes_push, pops_push]
    change n + (_ + 1) = _ + 1 + 0
    omega

theorem tracks_climbs : Tracks (Climbs (τ := τ)) where
  first _ := climbs_refl _
  last _ := climbs_refl _
  append := Climbs.append
  level _ _ := climbs_level
  opened push := by
    cases opened_of_pushScope push
    exact climbs_opened ..
  closed push inner popped := by
    cases opened_of_pushScope push
    exact inner.closed popped

end Session

namespace Engine

variable {τ : Type} [Tracer τ]

theorem run_ne_underflow (p : Activity) (s : Session τ) :
    (p.run s).1 ≠ .error (.abort (.structural .scopeUnderflow)) := by
  intro aborts
  obtain ⟨starts, derivation⟩ := run_yields p s
  obtain ⟨before, x, -, raises⟩ := derivation.endsWith _ aborts
  rcases raises.origin with ⟨e, other⟩ | ⟨path, i, n, other⟩ | ⟨other, -⟩ <;> cases other

end Engine

/-! ## Reachable sessions -/

namespace Session

variable {τ : Type}

def InStep (s : Session τ) : Prop := s.tables.length = s.env.frames.length

theorem inStep_of_eq {s s' : Session τ} (tables : s'.enclosing.length = s.enclosing.length)
    (frames : s'.env.enclosing = s.env.enclosing) (inStep : s.InStep) : s'.InStep := by
  simp only [InStep, Session.tables, Environment.frames, List.length_cons, tables, frames] at *
  exact inStep

variable [Tracer τ]

/-- The session is one that calls of its operations and runs of activities have made of a fresh
one. -/
inductive Reachable : Session τ → Prop
  | start (host : Host) (limits : Option Limits) (tracer : τ) :
      Reachable (.start host limits tracer)
  | run {s : Session τ} (p : Activity) : Reachable s → Reachable (p.run s).2
  | pushScope {s : Session τ} (scope : String) : Reachable s → Reachable (s.pushScope scope).2
  | popScope {s : Session τ} (merge : Bool) : Reachable s → Reachable (s.popScope merge).2
  | install {s : Session τ} (target : Target) (p : Activity) : Reachable s →
      Reachable (s.install target p)
  | takeHandler {s s' : Session τ} {name : String} {orFallback : Bool} {p : Activity} :
      Reachable s → s.takeHandler? name orFallback = some (p, s') → Reachable s'
  | takeCompensation {s s' : Session τ} {scope : String} {p : Activity} :
      Reachable s → s.takeCompensation? scope = some (p, s') → Reachable s'
  | takeVisible {s s' : Session τ} {scope : String} {p : Activity} :
      Reachable s → s.takeVisible? scope = some (p, s') → Reachable s'
  | kill {s : Session τ} (f : Fault) : Reachable s → Reachable (s.kill f)
  | clearKill {s : Session τ} : Reachable s → Reachable s.clearKill
  | deliver {s : Session τ} (f : Fault) : Reachable s → Reachable (s.deliver f).2

theorem inStep_closed {s : Session τ} {merge : Bool} {env : Environment}
    (popped : s.env.pop? merge = some env) (inStep : s.InStep) : (s.closed merge env).InStep := by
  obtain ⟨-, scopes, -⟩ := Environment.pop?_eq_some popped
  have frames : env.frames.length = s.env.frames.length - 1 := by
    have lengths := congrArg List.length scopes
    rwa [List.length_map, List.length_drop, List.length_map] at lengths
  have tables : (s.closed merge env).enclosing.length = s.enclosing.length - 1 := by
    rw [tables_closed, List.length_tail]
  have root : 0 < env.frames.length := Nat.succ_pos _
  unfold InStep at *
  rw [env_closed]
  simp only [Session.tables, List.length_cons] at *
  omega

theorem kept_inStep : Kept fun s s' : Session τ => s.InStep → s'.InStep where
  refl _ := id
  trans first second inStep := second (first inStep)
  step s := by
    rw [step_snd]
    exact id
  write s p v := by
    rw [write_snd]
    exact inStep_of_eq rfl (Environment.write_enclosing ..)
  offer s call := by
    obtain ⟨output, eq⟩ := s.offer_snd call
    rw [eq]
    exact id
  kill _ _ := id
  clearKill _ := id
  install _ _ _ := id
  takeHandler taken := by
    obtain ⟨h, -, rfl⟩ := takeHandler?_eq taken
    exact id
  takeCompensation taken := by
    obtain ⟨h, -, rfl⟩ := takeCompensation?_eq taken
    exact id
  takeVisible taken := by
    obtain ⟨h, outer, found, rfl⟩ := takeVisible?_eq taken
    have same := (Handlers.consumed_takeInnermost? found).length_eq
    exact inStep_of_eq (Nat.succ.inj same.symm) rfl
  observe _ _ := id
  pushScope s scope := by
    rcases s.pushScope_cases scope with eq | ⟨e, eq⟩ <;> rw [eq]
    · exact congrArg (· + 1)
    · exact id
  popScope s merge := by
    rcases s.popScope_cases merge with ⟨env, popped, eq⟩ | ⟨-, eq⟩ <;> rw [eq]
    · exact inStep_closed popped
    · exact id

theorem Reachable.inStep {s : Session τ} (reachable : s.Reachable) : s.InStep := by
  induction reachable with
  | start => rfl
  | @run s p _ ih =>
    obtain ⟨starts, derivation⟩ := run_yields p s
    exact kept_inStep.yields derivation ih
  | pushScope scope _ ih => exact kept_inStep.pushScope _ scope ih
  | popScope merge _ ih => exact kept_inStep.popScope _ merge ih
  | install target p _ ih => exact kept_inStep.install _ target p ih
  | takeHandler _ taken ih => exact kept_inStep.takeHandler taken ih
  | takeCompensation _ taken ih => exact kept_inStep.takeCompensation taken ih
  | takeVisible _ taken ih => exact kept_inStep.takeVisible taken ih
  | kill f _ ih => exact kept_inStep.kill _ f ih
  | clearKill _ ih => exact kept_inStep.clearKill _ ih
  | deliver f _ ih =>
    rw [deliver_eq]
    exact kept_inStep.delivered _ f ih

end Session

/-- Frames and handler tables are as many as each other in every session that can be reached, and
there is one at least. A run never gets below the frame that was current when it started and leaves
the frames below as they were; the frames that are open more or less at any time are those that the
events have opened and closed. A run that does not abort leaves one frame more for each scope that
does not close its own. So no program closes the frame that no scope has opened. -/
theorem open_frames_are_accounted_for :
    (∀ (τ : Type) [Tracer τ] (s : Session τ), s.Reachable →
      s.tables.length = s.env.frames.length ∧ 0 < s.tables.length) ∧
    (∀ (τ : Type) [Tracer τ] (p : Activity) (s : Session τ), ∃ starts es,
      Yields (.run p) s starts .clear (p.run s) ∧ s.Climbs es (p.run s).2 ∧
        (p.run s).2.depth + pops es = s.depth + pushes es ∧
        ((∀ a, (p.run s).1 ≠ .error (.abort a)) →
          (p.run s).2.depth = s.depth + openings starts) ∧
        (p.run s).1 ≠ .error (.abort (.structural .scopeUnderflow)) ∧
        ∀ x ∈ starts, s.depth ≤ x.session.depth ∧
          ∃ before, before <+: es ∧ s.Climbs before x.session) ∧
    ∀ (τ : Type) [Tracer τ] (program : Program) (host : Host) (tracer : τ),
      (program.run host tracer).1 ≠ .error (.structural .scopeUnderflow) := by
  refine ⟨?_, ?_, ?_⟩
  · intro τ _ s reachable
    exact ⟨reachable.inStep, Nat.succ_pos _⟩
  · intro τ _ p s
    obtain ⟨starts, derivation⟩ := run_yields p s
    obtain ⟨es, whole, parts⟩ := tracks_climbs.yields derivation (climbs_refl s)
    refine ⟨starts, es, derivation, whole, whole.depth, ?_, run_ne_underflow p s, ?_⟩
    · intro ends
      exact (derivation.stands ends).depth_eq
    · intro x started
      obtain ⟨before, start, climbs⟩ := parts x started
      exact ⟨climbs.depth_le, before, start, climbs⟩
  · intro τ _ program host tracer underflow
    exact run_ne_underflow _ _ (Program.conclude_eq_structural underflow)

/-- The scope of the order closes the frame that the payment has left open, and so not its own. -/
def lopsided : Activity :=
  .sequence [.scope "order" (.scope "payment" .nil false) true, .scope "delivery" .nil false]

theorem lopsided_is_accounted_for :
    let start := Session.start .standard none ()
    let final := (lopsided.run start).2
    final.Reachable ∧ final.tables.length = final.env.frames.length ∧
      final.env.frames.map Frame.scope = ["delivery", "order", "main"] ∧
      ∃ starts, Yields (.run lopsided) start starts .clear (lopsided.run start) ∧
        openings starts = 2 := by
  intro start final
  have reachable : final.Reachable := .run lopsided (.start .standard none ())
  obtain ⟨accounted, runs, -⟩ := open_frames_are_accounted_for
  obtain ⟨starts, es, derivation, -, -, opened, -⟩ := runs Unit lopsided start
  have ends : (lopsided.run start).1 = .ok () := by rfl
  have depth : (lopsided.run start).2.depth = 0 + openings starts :=
    opened (by rw [ends]; exact ok_ne_abort)
  have two : (lopsided.run start).2.depth = 2 := by rfl
  refine ⟨reachable, (accounted Unit final reachable).1, by rfl, starts, derivation, ?_⟩
  omega

end Orchestration
