import Orchestration.Proofs.Inlining
import Orchestration.Proofs.Quietness

/-!
# A scope around a quiet body is transparent

A quiet body has nothing to do but read, write, print and raise faults. Where there are no handlers
either, a scope around it merges its frame at the end, whether the body returns or raises a fault,
and the fault is raised again. So the run of the scope follows the run of the body alone, with one
frame more.
-/

set_option autoImplicit false

namespace Orchestration

open Activity

theorem Limits.depthError?_mono {l : Limits} {depth depth' : Nat} (le : depth ≤ depth')
    (fits : l.depthError? depth' = Option.none) : l.depthError? depth = Option.none := by
  unfold depthError? at *
  simp only [ite_eq_right_iff, reduceCtorEq, imp_false, Nat.not_le] at fits ⊢
  exact Nat.lt_of_le_of_lt le fits

namespace Session

variable {τ : Type}

/-- The second session is where the first one would be with one frame less, the one over which `n`
further frames are open. -/
structure Inlined (n : Nat) (s t : Session τ) : Prop where
  env : s.env.MergesAt n t.env
  host : t.host = s.host
  limits : t.limits = s.limits
  calls : t.calls = s.calls
  output : t.output = s.output
  calm : t.Calm

structure Likewise (n : Nat) (r r' : Answer τ Unit) : Prop where
  answer : r'.1 = r.1
  session : r.2.Inlined n r'.2

theorem Likewise.andThen {n : Nat} {r r' : Answer τ Unit} (first : Likewise n r r')
    {next : Session τ → Answer τ Unit}
    (second : ∀ {s t : Session τ}, s.Inlined n t → Likewise n (next s) (next t)) :
    Likewise n (andThen r next) (andThen r' next) := by
  obtain ⟨e, s⟩ := r
  obtain ⟨e', t⟩ := r'
  obtain ⟨answer, session⟩ := first
  cases answer
  cases e with
  | ok u => exact second session
  | error stop => exact ⟨rfl, session⟩

namespace Inlined

variable {n : Nat} {s t : Session τ}

theorem value (h : s.Inlined n t) (e : Expr) : e.eval t.env = e.eval s.env :=
  Expr.eval_congr h.env.value e

theorem makeFault (h : s.Inlined n t) (name : String) (payload : Option Expr) :
    Engine.makeFault t name payload = Engine.makeFault s name payload := by
  cases payload with
  | none => rfl
  | some e => exact congrArg (Fault.mk name) (h.value e)

theorem likewise (h : s.Inlined n t) (e : Except Stop Unit) : Likewise n (e, s) (e, t) := ⟨rfl, h⟩

theorem stepped (h : s.Inlined n t) :
    Inlined n { s with steps := s.steps + 1 } { t with steps := t.steps + 1 } :=
  ⟨h.env, h.host, h.limits, h.calls, h.output, h.calm.of_eq rfl rfl⟩

theorem write (h : s.Inlined n t) (p : Path) (v : Value) :
    Likewise n (s.write p v) (t.write p v) := by
  obtain ⟨gap, env⟩ := h.env.update (Tree.setValue v) p
  refine ⟨?_, ?_⟩
  · change (t.env.write p v).1 = (s.env.write p v).1 at gap
    unfold Session.write
    dsimp only
    rw [gap]
    cases (s.env.write p v).1 <;> rfl
  · rw [write_snd, write_snd]
    exact ⟨env, h.host, h.limits, h.calls, h.output, h.calm.of_eq rfl rfl⟩

theorem called (h : s.Inlined n t) (call : Call) {output output' : String}
    (same : output' = output) :
    Inlined n { s with calls := call :: s.calls, output := output }
      { t with calls := call :: t.calls, output := output' } :=
  ⟨h.env, h.host, h.limits, congrArg (call :: ·) h.calls, same, h.calm.of_eq rfl rfl⟩

theorem offer (h : s.Inlined n t) (call : Call) : Likewise n (s.offer call) (t.offer call) := by
  have refusal : t.host.refuses t.calls call = s.host.refuses s.calls call := by
    rw [h.host, h.calls]
  have keeps : t.host.keeps = s.host.keeps := by rw [h.host]
  unfold Session.offer
  dsimp only
  rw [refusal, keeps]
  cases s.host.refuses s.calls call with
  | some f => exact (h.called call h.output).likewise _
  | none =>
    cases s.host.keeps with
    | true => exact (h.called call (congrArg (· ++ call.text) h.output)).likewise _
    | false => exact (h.called call h.output).likewise _

theorem offerAll (h : s.Inlined n t) (calls : List Call) :
    Likewise n (offerAll calls s) (offerAll calls t) := by
  induction calls generalizing s t with
  | nil => exact h.likewise _
  | cons call rest ih => exact (h.offer call).andThen ih

theorem printLine (h : s.Inlined n t) (parts : List Expr) :
    Likewise n (s.printLine (parts.map fun e => (e.eval s.env).text))
      (t.printLine (parts.map fun e => (e.eval t.env).text)) := by
  have same : (fun e : Expr => (e.eval t.env).text) = fun e => (e.eval s.env).text :=
    funext fun e => congrArg Value.text (h.value e)
  rw [same]
  exact h.offerAll _

variable [Tracer τ]

theorem observe (h : s.Inlined n t) (e e' : Event) : Inlined n (s.observe e) (t.observe e') :=
  ⟨h.env, h.host, h.limits, h.calls, h.output, h.calm.of_eq rfl rfl⟩

theorem opened (h : s.Inlined n t) (id : String) :
    Inlined (n + 1) (s.opened id) (t.opened id) :=
  ⟨h.env.push id, h.host, h.limits, h.calls, h.output, (h.calm.opened id).calm⟩

theorem pushScope (h : s.Inlined n t) {id : String} {s₁ : Session τ}
    (push : s.pushScope id = (.ok (), s₁)) : t.pushScope id = (.ok (), t.opened id) := by
  apply pushScope_of_fits
  have fits := fits_of_pushScope push
  have below : t.depth ≤ s.depth := by
    have deeper : s.depth = t.depth + 1 := h.env.depth_eq
    omega
  unfold effectiveLimits at *
  rw [h.limits]
  exact Limits.depthError?_mono below fits

theorem closed (h : s.Inlined n t) {env env' : Environment} {k : Nat}
    (merged : env.MergesAt k env') : Inlined k (s.closed true env) (t.closed true env') := by
  have calm := (h.calm.closed env').calm
  obtain ⟨handlers, enclosing, tracer, eq⟩ := s.closed_eq true env
  obtain ⟨handlers', enclosing', tracer', eq'⟩ := t.closed_eq true env'
  rw [eq'] at calm ⊢
  rw [eq]
  exact ⟨merged, h.host, h.limits, h.calls, h.output, calm⟩

theorem resolve (h : s.Inlined n t) (id : String) (v : Verdict) :
    Likewise n (Engine.resolve id v s) (Engine.resolve id v t) := by
  unfold Engine.resolve
  split
  · split
    · exact (h.observe _ _).likewise _
    · exact h.likewise _
  · exact h.likewise _

theorem leave (h : s.Inlined (n + 1) t) (id : String) {v : Verdict} (merge : v.merge = true) :
    Likewise n (Engine.leave id true v s) (Engine.leave id true v t) := by
  obtain ⟨env, env', popped, popped', merged⟩ := h.env.popped
  unfold Engine.leave
  rw [if_pos rfl, if_pos rfl, merge, popScope_of_popped popped, popScope_of_popped popped']
  exact ((h.closed merged).likewise _).andThen fun closed => closed.resolve id v

end Inlined

end Session

namespace Engine

open Session

variable {τ : Type}

theorem likewise_atomic {p : Activity} {n : Nat} {s t : Session τ} {r : Answer τ Unit}
    (atom : atomic? p s = some r) (quiet : p.count disturbs = 0) (calm : s.Calm)
    (h : s.Inlined n t) : ∃ r', atomic? p t = some r' ∧ Likewise n r r' := by
  cases p with
  | nil | exit => cases atom; exact ⟨_, rfl, h.likewise _⟩
  | assign path value =>
    cases atom
    rw [← h.value value]
    exact ⟨_, rfl, h.write ..⟩
  | print parts => cases atom; exact ⟨_, rfl, h.printLine parts⟩
  | throw name payload =>
    cases atom
    rw [← h.makeFault]
    exact ⟨_, rfl, h.likewise _⟩
  | compensate scope =>
    rw [atomic?, calm.takeVisible?] at atom
    rw [atomic?, h.calm.takeVisible?]
    cases atom
    exact ⟨_, rfl, h.likewise _⟩
  | kill | install => simp [count, total, disturbs] at quiet
  | sequence | parallel | scope => cases atom

variable [Tracer τ]

theorem Yields.inlined {w : Work} {s : Session τ} {starts : List (Start τ)} {v : Verdict}
    {r : Answer τ Unit} (h : Yields w s starts v r) (quiet : w.count disturbs = 0) (calm : s.Calm)
    (unhurried : s.Unhurried) (ends : ∀ a, r.1 ≠ .error (.abort a)) {n : Nat} {t : Session τ}
    (inlined : s.Inlined n t) : ∃ starts' r', Yields w t starts' v r' ∧ Likewise n r r' := by
  induction h generalizing n t with
  | refused step => cases unhurried.step.symm.trans step
  | @stepped p s s₁ starts r step rest ih =>
    cases stepped_eq step
    have unhurried' : t.Unhurried := unhurried.of_eq inlined.limits
    obtain ⟨starts', r', derivation, likewise⟩ :=
      ih quiet (calm.of_eq rfl rfl) (unhurried.of_eq rfl) ends inlined.stepped
    exact ⟨_, r', .stepped unhurried'.step derivation, likewise⟩
  | atomic atom =>
    obtain ⟨r', atom', likewise⟩ := likewise_atomic atom quiet calm inlined
    exact ⟨_, r', .atomic atom', likewise⟩
  | sequence children ih =>
    obtain ⟨starts', r', derivation, likewise⟩ :=
      ih (count_sequence quiet) calm unhurried ends inlined
    exact ⟨_, r', .sequence derivation, likewise⟩
  | parallel children ih =>
    obtain ⟨starts', r', derivation, likewise⟩ :=
      ih (count_parallel quiet) calm unhurried ends inlined
    exact ⟨_, r', .parallel derivation, likewise⟩
  | found taken undo ih =>
    rw [calm.takeVisible?] at taken
    cases taken
  | unopened push =>
    obtain ⟨-, e, rfl⟩ := pushScope_error push
    exact absurd rfl (ends _)
  | unsettled push settle ih =>
    obtain ⟨a, rfl⟩ := settle.settle_error
    exact absurd rfl (ends a)
  | @settled id body autoPop s s₁ s₂ starts v r push settle left ih =>
    have push' := inlined.pushScope push
    cases opened_of_pushScope push
    obtain ⟨rfl, inner⟩ := count_scope quiet
    have opened := calm.opened id
    have settled := settle.calmly inner opened.calm
    obtain ⟨starts', ⟨e, t₂⟩, derivation, answer, session⟩ :=
      ih inner opened.calm (unhurried.of_eq rfl) nofun (inlined.opened id)
    cases answer
    subst left
    -- The scope's own frame is the innermost of the n + 1 ones, and both runs merge it.
    exact ⟨_, _, .settled push' derivation rfl, session.leave id settled.verdict⟩
  | finished => exact ⟨_, _, .finished, inlined.likewise _⟩
  | passed passes rest ih => cases (calm.stays _).symm.trans passes
  | @next ends' p ps s s₁ starts starts' r stays first rest ih ih' =>
    obtain ⟨here, others⟩ := count_cons quiet
    have begun := first.calmly here calm
    have unhurried' : s₁.Unhurried := unhurried.of_eq (kept_limits.yields first)
    obtain ⟨starts₁, ⟨e, t₁⟩, derivation, answer, session⟩ :=
      ih here calm unhurried nofun inlined
    cases answer
    obtain ⟨starts₂, r', derivation', likewise⟩ :=
      ih' others begun.calm unhurried' ends session
    exact ⟨_, r', .next (inlined.calm.stays p) derivation derivation', likewise⟩
  | @stopped ends' p ps s s₁ starts stop stays first ih =>
    obtain ⟨starts', ⟨e, t₁⟩, derivation, answer, session⟩ :=
      ih (count_cons quiet).1 calm unhurried ends inlined
    cases answer
    exact ⟨_, _, .stopped (inlined.calm.stays p) derivation, session.likewise _⟩
  | quiet body none ih =>
    obtain ⟨starts', ⟨e, t₁⟩, derivation, answer, session⟩ :=
      ih quiet calm unhurried nofun inlined
    cases answer
    exact ⟨_, _, .quiet derivation session.calm.pending, session.likewise _⟩
  | killed body pending | undone body pending | interrupted body pending =>
    cases (body.calmly quiet calm).calm.pending.symm.trans pending
  | captured body none ih =>
    obtain ⟨starts', ⟨e, t₁⟩, derivation, answer, session⟩ :=
      ih quiet calm unhurried nofun inlined
    cases answer
    exact ⟨_, _, .captured derivation (session.calm.takeHandler? ..),
      (session.observe _ _).likewise _⟩
  | dispatched body taken handling ih ih' =>
    rw [(body.calmly quiet calm).calm.takeHandler?] at taken
    cases taken
  | aborted body ih => exact absurd rfl (ends _)

def outcome (v : Verdict) : Except Stop Unit :=
  match v.captured with
  | some f => .error (.fault f)
  | none => .ok ()

theorem leave_merged {id : String} {v : Verdict} {s : Session τ} {env : Environment}
    (merge : v.merge = true) (popped : s.env.pop? true = some env) :
    (leave id true v s).1 = outcome v ∧ ∃ handlers enclosing tracer,
      (leave id true v s).2 = { s with
        env := env, handlers := handlers, enclosing := enclosing, tracer := tracer } := by
  have left : leave id true v s = resolve id v (s.closed true env) := by
    unfold leave
    rw [if_pos rfl, merge, popScope_of_popped popped]
    rfl
  rw [left]
  constructor
  · unfold resolve outcome
    rw [merge]
    cases v.captured <;> rfl
  · obtain ⟨handlers, enclosing, tracer, closed⟩ := s.closed_eq true env
    obtain ⟨tracer', resolved⟩ := resolve_snd id v (s.closed true env)
    rw [resolved, closed]
    exact ⟨_, _, _, rfl⟩

theorem Yields.run_of_settle {role : Role} {id : String} {p : Activity} {s s₂ : Session τ}
    {starts : List (Start τ)} {v : Verdict} (h : Yields (.settle role id p) s starts v (.ok (), s₂))
    (quiet : p.count disturbs = 0) (calm : s.Calm) :
    ∃ s₁ tracer, p.run s = (outcome v, s₁) ∧ s₂ = { s₁ with tracer := tracer } := by
  cases h with
  | quiet body none => exact ⟨s₂, s₂.tracer, body.run_eq, rfl⟩
  | captured body none => exact ⟨_, _, body.run_eq, rfl⟩
  | killed body pending | undone body pending =>
    cases (body.calmly quiet calm).calm.pending.symm.trans pending
  | dispatched body taken handling =>
    rw [(body.calmly quiet calm).calm.takeHandler?] at taken
    cases taken

theorem inlined_opened {s : Session τ} (calm : s.Calm) (id : String) (steps : Nat) :
    Inlined 0 (opened { s with steps := steps } id) s :=
  ⟨s.env.mergesAt_push id, rfl, rfl, rfl, rfl, calm⟩

theorem Yields.transparent {id : String} {body : Activity} {s : Session τ}
    {starts : List (Start τ)} {v : Verdict} {r : Answer τ Unit}
    (h : Yields (.run (scope id body true)) s starts v r) (quiet : body.count disturbs = 0)
    (calm : s.Calm) (unhurried : s.Unhurried) (ends : ∀ a, r.1 ≠ .error (.abort a)) :
    (body.run s).1 = r.1 ∧ (body.run s).2.output = r.2.output ∧
      (body.run s).2.calls = r.2.calls ∧ (body.run s).2.env = r.2.env := by
  cases h with
  | refused step => cases unhurried.step.symm.trans step
  | stepped step whole =>
    cases stepped_eq step
    cases whole with
    | atomic atom => cases atom
    | unopened push =>
      obtain ⟨-, e, rfl⟩ := pushScope_error push
      exact absurd rfl (ends _)
    | unsettled push settle =>
      obtain ⟨a, rfl⟩ := settle.settle_error
      exact absurd rfl (ends a)
    | settled push settle left =>
      cases opened_of_pushScope push
      have counted : Calm { s with steps := s.steps + 1 } := calm.of_eq rfl rfl
      have opened := (counted.opened id).calm
      have verdict := (settle.calmly quiet opened).verdict
      obtain ⟨starts', ⟨e, t₂⟩, derivation, same, inlined⟩ := settle.inlined quiet opened
        (unhurried.of_eq rfl) nofun (inlined_opened calm id (s.steps + 1))
      cases same
      obtain ⟨t, tracer, ran, rfl⟩ := derivation.run_of_settle quiet calm
      obtain ⟨answer, handlers, enclosing, tracer', final⟩ := leave_merged verdict inlined.env.pop?
      rw [ran, ← left, answer, final]
      exact ⟨rfl, inlined.output, inlined.calls, rfl⟩

end Engine

open Engine

/-- A scope around a body that neither kills nor installs anything, and whose scopes all close
their frames, does what the body does alone: it raises the same fault, if any, prints the same and
leaves the same environment. All frames that are closed on the way are merged. -/
theorem quiet_scope_is_transparent (τ : Type) [Tracer τ] (id : String) (body : Activity)
    (s : Session τ) (quiet : body.count disturbs = 0) (calm : s.Calm) (unhurried : s.Unhurried)
    (ends : ∀ a, ((scope id body true).run s).1 ≠ .error (.abort a)) :
    let framed := (scope id body true).run s
    let plain := body.run s
    plain.1 = framed.1 ∧ plain.2.output = framed.2.output ∧ plain.2.calls = framed.2.calls ∧
      plain.2.env = framed.2.env ∧
      ∃ es, s.Logs es framed.2 ∧
        ∀ id merged depth, .scopePop id merged depth ∈ es → merged = true := by
  intro framed plain
  obtain ⟨starts, derivation⟩ := run_yields (scope id body true) s
  obtain ⟨answer, output, calls, env⟩ := derivation.transparent quiet calm unhurried ends
  have quiet' : (scope id body true).count disturbs = 0 := by
    rw [count, total]
    rw [count] at quiet
    simpa [disturbs] using quiet
  obtain ⟨es, logs, kept⟩ := (derivation.calmly quiet' calm).merges
  refine ⟨answer, output, calls, env, es, logs, ?_⟩
  intro id merged depth among
  have kept := kept _ among
  cases merged with
  | true => rfl
  | false => cases kept

/-- The scope of a line merges its frame, that of the tax raises a fault out of its own. -/
def invoice : Activity :=
  .sequence [
    .scope "line" (.sequence [
      .assign ((Path.root "order").join ⟨"item", 0⟩) (.literal (.str "pen")),
      .print [.path (.root "order")]]) true,
    .assign (.root "total") (.literal (.str "7")),
    .scope "tax" (.sequence [
      .assign (.root "rate") (.path (.root "total")),
      .throw "Overflow" (some (.path (.root "rate")))]) true]

theorem invoice_frame_is_transparent :
    let s := { Session.start .standard none () with
      env := (Environment.initial.write (.root "order") (.str "open")).2 }
    invoice.count disturbs = 0 ∧ s.Calm ∧ s.Unhurried ∧
      ((scope "shop" invoice true).run s).1 = .error (.fault ⟨"Overflow", .str "7"⟩) ∧
      let framed := (scope "shop" invoice true).run s
      let plain := invoice.run s
      plain.1 = framed.1 ∧ plain.2.output = framed.2.output ∧ plain.2.calls = framed.2.calls ∧
        plain.2.env = framed.2.env ∧
        ∃ es, s.Logs es framed.2 ∧
          ∀ id merged depth, .scopePop id merged depth ∈ es → merged = true := by
  intro s
  have quiet : invoice.count disturbs = 0 := by rfl
  have calm : s.Calm := ⟨rfl, fun h among => List.mem_singleton.mp among⟩
  have unhurried : s.Unhurried := ⟨rfl, rfl⟩
  have raised : ((scope "shop" invoice true).run s).1 =
      .error (.fault ⟨"Overflow", .str "7"⟩) := by decide +kernel
  have ends (a : Abort) : ((scope "shop" invoice true).run s).1 ≠ .error (.abort a) := by
    rw [raised]
    exact fault_ne_abort _ a
  exact ⟨quiet, calm, unhurried, raised,
    quiet_scope_is_transparent Unit "shop" invoice s quiet calm unhurried ends⟩

example :
    (invoice.run (.start .standard none ())).2.env.frames.map (·.bindings.children.names) =
      [["order", "total", "rate"]] := by decide +kernel

end Orchestration
