import Orchestration.Proofs.Accounting

/-!
# The most scopes that are open

Frames are opened by one operation only, which looks at the limit first. So what opens them, be it
scopes inside one another, scopes that leave their frames behind, or scopes in handlers and
compensations, the bound holds at every time of a run: it is kept by the opening of a frame without
a look at what the frame is for. The scope that is one too many aborts the session, which keeps all
frames that were open by then.
-/

set_option autoImplicit false

namespace Orchestration

open Engine

namespace Limits

theorem depthError?_eq_none {l : Limits} {depth : Nat} :
    l.depthError? depth = Option.none ↔ depth < l.scopeDepth := by
  unfold depthError?
  simp

theorem depthError?_eq_some {l : Limits} {depth : Nat} {e : LimitError} :
    l.depthError? depth = some e ↔
      l.scopeDepth ≤ depth ∧ e = .scopeDepth l.scopeDepth (depth + 1) := by
  unfold depthError?
  split
  · next full => simp [full, eq_comm]
  · next room => simp [room]

theorem stepError?_ne_scopeDepth {l : Limits} {steps : Nat} {elapsed : Duration}
    (most depth : Nat) : l.stepError? steps elapsed ≠ some (.scopeDepth most depth) := by
  unfold stepError?
  repeat' split
  all_goals nofun

end Limits

theorem Environment.depth_of_pop? {e popped : Environment} {merge : Bool}
    (h : e.pop? merge = some popped) : popped.depth + 1 = e.depth := by
  unfold pop? at h
  unfold Environment.depth
  split at h <;> cases h
  next parent outer enclosing => rw [enclosing, List.length_cons]

variable {τ : Type}

namespace Session

def most (s : Session τ) : Nat := s.effectiveLimits.scopeDepth

variable [Tracer τ]

/-- Between the two sessions the events of the list have happened, and at no time have they opened
more scopes than may be open. -/
structure Capped (s : Session τ) (es : List Event) (s' : Session τ) : Prop where
  limits : s'.limits = s.limits
  logs : s.Logs es s'
  depth : s'.depth + pops es = s.depth + pushes es
  within : ∀ before, before <+: es → s.depth + pushes before ≤ s.most + pops before
  entries : ∀ id d, .scopePush id d ∈ es → 1 ≤ d ∧ d ≤ s.most

theorem Capped.most_eq {s s' : Session τ} {es : List Event} (capped : s.Capped es s') :
    s'.most = s.most := by
  unfold most effectiveLimits
  rw [capped.limits]

theorem Capped.fits {s s' : Session τ} {es : List Event} (capped : s.Capped es s') :
    s.depth ≤ s.most := capped.within [] List.nil_prefix

theorem Capped.fits' {s s' : Session τ} {es : List Event} (capped : s.Capped es s') :
    s'.depth ≤ s'.most := by
  have now := capped.within es List.prefix_rfl
  have depth := capped.depth
  rw [capped.most_eq]
  omega

theorem capped_of_no_pushes {s s' : Session τ} {es : List Event} (fits : s.depth ≤ s.most)
    (limits : s'.limits = s.limits) (logs : s.Logs es s')
    (depth : s'.depth + pops es = s.depth) (none : pushes es = 0) : s.Capped es s' where
  limits := limits
  logs := logs
  depth := by rw [depth, none, Nat.add_zero]
  within before first := by
    have few : pushes before ≤ pushes es := first.sublist.countP_le
    omega
  entries id d mem := absurd rfl (List.countP_eq_zero.mp none _ mem)

theorem capped_level {s s' : Session τ} {es : List Event} (fits : s.depth ≤ s.most)
    (limits : s'.limits = s.limits) (logs : s.Logs es s') (stands : s.Stands 0 s')
    (opens : pushes es = 0) (closes : pops es = 0) : s.Capped es s' :=
  capped_of_no_pushes fits limits logs (by rw [stands.depth, closes]; rfl) opens

theorem capped_refl {s : Session τ} (fits : s.depth ≤ s.most) : s.Capped [] s :=
  capped_level fits rfl s.logs_refl (stands_refl s) rfl rfl

theorem Capped.append {s s' s'' : Session τ} {es es' : List Event} (first : s.Capped es s')
    (second : s'.Capped es' s'') : s.Capped (es ++ es') s'' where
  limits := second.limits.trans first.limits
  logs := first.logs.append second.logs
  depth := by
    have one := first.depth
    have two := second.depth
    rw [pushes_append, pops_append]
    omega
  within before start := by
    rcases List.prefix_or_prefix_of_prefix start (List.prefix_append es es') with inside | beyond
    · exact first.within before inside
    · obtain ⟨rest, rfl⟩ := beyond
      have later := second.within rest ((List.prefix_append_right_inj es).mp start)
      have depth := first.depth
      have same := first.most_eq
      rw [pushes_append, pops_append]
      omega
  entries id d mem := by
    rcases List.mem_append.mp mem with left | right
    · exact first.entries id d left
    · rw [← first.most_eq]
      exact second.entries id d right

theorem capped_opened {s s₁ : Session τ} {id : String} (push : s.pushScope id = (.ok (), s₁)) :
    s.Capped [.scopePush id (s.depth + 1)] s₁ := by
  have room : s.depth < s.most := Limits.depthError?_eq_none.mp (fits_of_pushScope push)
  cases opened_of_pushScope push
  refine ⟨rfl, rfl, rfl, ?_, ?_⟩
  · intro before first
    have few : pushes before ≤ 1 := first.sublist.countP_le
    omega
  · intro id' d mem
    cases List.mem_singleton.mp mem
    exact ⟨Nat.succ_pos _, room⟩

theorem capped_closed {s : Session τ} (fits : s.depth ≤ s.most) {merge : Bool} {env : Environment}
    (popped : s.env.pop? merge = some env) :
    s.Capped [.scopePop s.currentScope merge env.depth] (s.closed merge env) := by
  have limits : (s.closed merge env).limits = s.limits := by
    obtain ⟨handlers, enclosing, tracer, eq⟩ := s.closed_eq merge env
    rw [eq]
  refine capped_of_no_pushes fits limits (s.logs_closed merge env) ?_ rfl
  unfold Session.depth
  rw [env_closed]
  exact Environment.depth_of_pop? popped

theorem tracks_capped : Tracks (Capped (τ := τ)) where
  first capped := capped_refl capped.fits
  last capped := capped_refl capped.fits'
  append := Capped.append
  level begins := capped_level begins.fits
  opened := capped_opened
  closed push inner popped :=
    ((capped_opened push).append inner).append (capped_closed inner.fits' popped)

end Session

namespace Engine

open Session

variable [Tracer τ]

def Start.Enters (x : Start τ) : Prop :=
  ∃ id body autoPop, x.work = .perform (.scope id body autoPop)

theorem Start.Enters.refused {x : Start τ} (enters : x.Enters)
    (full : x.session.depth = x.session.most) :
    Yields x.work x.session [x] .clear
      (.error (.abort (.limit (.scopeDepth x.session.most (x.session.most + 1)))), x.session) := by
  obtain ⟨w, s⟩ := x
  obtain ⟨id, body, autoPop, rfl⟩ := enters
  change s.depth = s.most at full
  have refusal : s.effectiveLimits.depthError? s.depth =
      some (.scopeDepth s.most (s.most + 1)) :=
    Limits.depthError?_eq_some.mpr ⟨Nat.le_of_eq full.symm, by rw [full]; rfl⟩
  have push : s.pushScope id =
      (.error (.abort (.limit (.scopeDepth s.most (s.most + 1)))), s) := by
    unfold Session.pushScope
    rw [refusal]
    rfl
  exact .unopened push

theorem Start.Raises.scopeDepth {x : Start τ} {l d : Nat} {s' : Session τ}
    (raises : x.Raises (.limit (.scopeDepth l d)) s') (fits : x.session.depth ≤ x.session.most) :
    x.Enters ∧ x.session.depth = x.session.most ∧ s' = x.session ∧ l = x.session.most ∧
      d = x.session.most + 1 := by
  cases raises with
  | step step =>
    obtain ⟨e, eq, refusal⟩ := step_error step
    cases eq
    exact absurd refusal (Limits.stepError?_ne_scopeDepth l d)
  | write write =>
    unfold Session.write at write
    dsimp only at write
    split at write <;> cases write
  | @push id body autoPop s s' _ push =>
    obtain ⟨rfl, -⟩ := pushScope_error push
    unfold Session.pushScope at push
    split at push
    · next e refusal =>
      obtain ⟨full, rfl⟩ := Limits.depthError?_eq_some.mp refusal
      cases push
      have depth : s'.depth = s'.most := Nat.le_antisymm fits full
      exact ⟨⟨id, body, autoPop, rfl⟩, depth, rfl, rfl, congrArg (· + 1) depth⟩
    · cases push

end Engine

namespace Program

variable [Tracer τ]

theorem run_error_limit {p : Program} {host : Host} {tracer : τ} {e : LimitError} :
    (p.run host tracer).1 = .error (.limit e) ↔
      (p.main.run (.start host (some p.limits) tracer)).1 = .error (.abort (.limit e)) := by
  rw [run_fst]
  exact ⟨conclude_eq_limit, fun aborted => by rw [aborted]; rfl⟩

end Program

/-- At no time of a run are more scopes open than the limit of the program allows, and no scope is
announced at another depth than these. The run ends with the error of this limit if and only if a
scope is entered while as many are open as may be. The error then names the limit and the depth
above it, and the session is the one in which the scope was entered: with as many frames and handler
tables above the first ones as the limit allows, and no event since. -/
theorem scope_limit_is_exact (τ : Type) [Tracer τ] (program : Program) (host : Host) (tracer : τ) :
    let most := program.limits.scopeDepth
    let start := Session.start host (some program.limits) tracer
    let result := (program.run host tracer).1
    let final := (program.run host tracer).2
    ∃ starts es, Yields (.run program.main) start starts .clear (program.main.run start) ∧
      start.Logs es final ∧
      (∀ x ∈ starts, x.session.depth ≤ most) ∧ final.depth ≤ most ∧
      (∀ before, before <+: es → pushes before ≤ most + pops before) ∧
      (∀ id d, .scopePush id d ∈ es → 1 ≤ d ∧ d ≤ most) ∧
      ((∃ l d, result = .error (.limit (.scopeDepth l d))) ↔
        ∃ x ∈ starts, x.Enters ∧ x.session.depth = most) ∧
      ∀ l d, result = .error (.limit (.scopeDepth l d)) →
        l = most ∧ d = most + 1 ∧ final.depth = most ∧ pushes es = most + pops es ∧
          final.env.frames.length = most + 1 ∧ final.tables.length = most + 1 ∧
          ∃ before x, starts = before ++ [x] ∧ x.Enters ∧ final = x.session := by
  intro most start result final
  obtain ⟨starts, derivation⟩ := run_yields program.main start
  obtain ⟨es, capped, parts⟩ :=
    Session.tracks_capped.yields derivation (Session.capped_refl (Nat.zero_le _))
  have allowed (x : Start τ) (started : x ∈ starts) :
      x.session.most = most ∧ x.session.depth ≤ x.session.most := by
    obtain ⟨before, -, inside⟩ := parts x started
    exact ⟨inside.most_eq, inside.fits'⟩
  have entered (l d : Nat) (broken : result = .error (.limit (.scopeDepth l d))) :
      ∃ before x, starts = before ++ [x] ∧ x.Enters ∧ x.session.depth = most ∧
        final = x.session ∧ l = most ∧ d = most + 1 := by
    obtain ⟨before, x, rfl, raises⟩ := derivation.endsWith _ (Program.run_error_limit.mp broken)
    obtain ⟨same, fits⟩ := allowed x (by simp)
    obtain ⟨enters, full, last, limit, depth⟩ := raises.scopeDepth fits
    exact ⟨before, x, rfl, enters, full.trans same, last, limit.trans same, by rw [depth, same]⟩
  have within : final.depth ≤ most := by
    have fits := capped.fits'
    rwa [capped.most_eq] at fits
  refine ⟨starts, es, derivation, capped.logs, ?_, within, ?_, capped.entries, ⟨?_, ?_⟩, ?_⟩
  · intro x started
    obtain ⟨same, fits⟩ := allowed x started
    rwa [same] at fits
  · intro before first
    have within := capped.within before first
    rwa [show start.depth = 0 from rfl, Nat.zero_add] at within
  · rintro ⟨l, d, broken⟩
    obtain ⟨before, x, rfl, enters, full, -⟩ := entered l d broken
    exact ⟨x, by simp, enters, full⟩
  · rintro ⟨x, started, enters, full⟩
    obtain ⟨same, -⟩ := allowed x started
    have aborted := derivation.surfaces x started _ _ _ _ (enters.refused (full.trans same.symm))
    exact ⟨_, _, Program.run_error_limit.mpr (congrArg Prod.fst aborted)⟩
  · intro l d broken
    obtain ⟨before, x, rfl, enters, full, last, rfl, rfl⟩ := entered l d broken
    have depth : final.depth = most := by rw [last, full]
    have opened : final.depth + pops es = 0 + pushes es := capped.depth
    have inStep : final.InStep := (Session.Reachable.run program.main (.start ..)).inStep
    have frames : final.env.frames.length = most + 1 := congrArg (· + 1) depth
    exact ⟨rfl, rfl, depth, by omega, frames, inStep.trans frames, before, x, rfl, enters, last⟩

def crowded : Program where
  main := .sequence [
    .scope "order" (.sequence [.install [(.fault "Lost", .scope "search" .nil false)],
      .throw "Lost" none]) false,
    .scope "delivery" .nil true]
  limits := ⟨some 2, none, none⟩

example : (crowded.run .standard (Recording.empty none)).1 = .error (.limit (.scopeDepth 2 3)) ∧
    (crowded.run .standard (Recording.empty none)).2.tracer.events = [.scopePush "order" 1,
      .faultDispatch "order" "Lost", .scopePush "search" 2] := ⟨by rfl, by rfl⟩

end Orchestration
