import Orchestration.Proofs.Derivation

/-!
# From the operations to the runs

The engine changes a session through the operations of `Session` only. So a relation that
is reflexive and transitive and that each operation keeps holds between the session in
which a work starts and the one in which it ends. An abort is the answer of a single
operation, and the engine hands that answer on as it is.
-/

set_option autoImplicit false

namespace Orchestration

variable {τ : Type}

/-! ## What the operations do -/

namespace Session

theorem step_snd (s : Session τ) : s.step.2 = { s with steps := s.steps + 1 } := by
  unfold step
  dsimp only
  split <;> rfl

theorem stepped_eq {s s₁ : Session τ} {e : Except Stop Unit} (step : s.step = (e, s₁)) :
    s₁ = { s with steps := s.steps + 1 } := by
  rw [← step_snd, step]

def refusal? (s : Session τ) : Option LimitError :=
  s.effectiveLimits.stepError? (s.steps + 1) (s.host.clock (s.steps + 1))

theorem step_of_refusal {s : Session τ} {e : LimitError} (refused : s.refusal? = some e) :
    s.step = (.error (.abort (.limit e)), { s with steps := s.steps + 1 }) := by
  unfold Session.step
  dsimp only
  split
  · next e' refused' =>
    cases refused.symm.trans refused'
    rfl
  · next passes => cases refused.symm.trans passes

theorem step_of_passed {s : Session τ} (passes : s.refusal? = none) :
    s.step = (.ok (), { s with steps := s.steps + 1 }) := by
  unfold Session.step
  dsimp only
  split
  · next e refused => cases passes.symm.trans refused
  · rfl

theorem step_error {s s₁ : Session τ} {stop : Stop} (step : s.step = (.error stop, s₁)) :
    ∃ e, stop = .abort (.limit e) ∧ s.refusal? = some e := by
  cases refusal : s.refusal? with
  | none => cases (step_of_passed refusal).symm.trans step
  | some e =>
    cases (step_of_refusal refusal).symm.trans step
    exact ⟨e, rfl, rfl⟩

theorem write_snd (s : Session τ) (p : Path) (v : Value) :
    (s.write p v).2 = { s with env := (s.env.write p v).2 } := by
  unfold write
  dsimp only
  split <;> rfl

theorem offer_snd (s : Session τ) (call : Call) :
    ∃ output, (s.offer call).2 = { s with calls := call :: s.calls, output := output } := by
  unfold offer
  dsimp only
  split
  · exact ⟨s.output, rfl⟩
  · split
    · exact ⟨s.output ++ call.text, rfl⟩
    · exact ⟨s.output, rfl⟩

theorem offerAll_snd (made : List Call) (s : Session τ) :
    ∃ calls output, (offerAll made s).2 = { s with calls := calls, output := output } := by
  induction made generalizing s with
  | nil => exact ⟨s.calls, s.output, rfl⟩
  | cons call rest ih =>
    obtain ⟨output, first⟩ := s.offer_snd call
    rw [offerAll]
    generalize s.offer call = answer at first
    obtain ⟨e, s'⟩ := answer
    change s' = _ at first
    subst first
    cases e with
    | ok u => exact ih _
    | error stop => exact ⟨_, _, rfl⟩

theorem installAll_eq (hs : List (Target × Activity)) (s : Session τ) :
    ∃ h, Engine.installAll s hs = { s with handlers := h } := by
  induction hs generalizing s with
  | nil => exact ⟨s.handlers, rfl⟩
  | cons h hs ih => exact ih (s.install h.1 h.2)

theorem takeHandler?_eq {s s' : Session τ} {name : String} {orFallback : Bool} {p : Activity}
    (taken : s.takeHandler? name orFallback = some (p, s')) :
    ∃ h, s.handlers.takeFault? name orFallback = some (p, h) ∧ s' = { s with handlers := h } := by
  obtain ⟨⟨q, h⟩, found, eq⟩ := Option.map_eq_some_iff.mp taken
  cases eq
  exact ⟨h, found, rfl⟩

theorem takeCompensation?_eq {s s' : Session τ} {scope : String} {p : Activity}
    (taken : s.takeCompensation? scope = some (p, s')) :
    ∃ h, s.handlers.takeCompensation? scope = some (p, h) ∧ s' = { s with handlers := h } := by
  obtain ⟨⟨q, h⟩, found, eq⟩ := Option.map_eq_some_iff.mp taken
  cases eq
  exact ⟨h, found, rfl⟩

theorem takeVisible?_eq {s s' : Session τ} {scope : String} {p : Activity}
    (taken : s.takeVisible? scope = some (p, s')) :
    ∃ h outer, Handlers.takeInnermost? scope s.tables = some (p, h :: outer) ∧
      s' = { s with handlers := h, enclosing := outer } := by
  unfold takeVisible? at taken
  split at taken <;> cases taken
  exact ⟨_, _, ‹_›, rfl⟩

variable [Tracer τ]

def opened (s : Session τ) (scope : String) : Session τ :=
  observe { s with env := s.env.push scope, handlers := .empty, enclosing := s.tables }
    (.scopePush scope (s.depth + 1))

theorem pushScope_cases (s : Session τ) (scope : String) :
    s.pushScope scope = (s.opened scope).done ∨
      ∃ e, s.pushScope scope = s.fail (.abort (.limit e)) := by
  unfold pushScope
  split
  · next e _ => exact .inr ⟨e, rfl⟩
  · exact .inl rfl

theorem pushScope_of_fits {s : Session τ} {scope : String}
    (fits : s.effectiveLimits.depthError? s.depth = none) :
    s.pushScope scope = (.ok (), s.opened scope) := by
  unfold pushScope
  rw [fits]
  rfl

theorem fits_of_pushScope {s s₁ : Session τ} {scope : String} {u : Unit}
    (push : s.pushScope scope = (.ok u, s₁)) : s.effectiveLimits.depthError? s.depth = none := by
  unfold pushScope at push
  split at push
  · cases push
  · next fits => exact fits

theorem opened_of_pushScope {s s₁ : Session τ} {scope : String} {u : Unit}
    (push : s.pushScope scope = (.ok u, s₁)) : s₁ = s.opened scope := by
  rcases s.pushScope_cases scope with opened | ⟨e, refused⟩
  · rw [push] at opened
    cases opened
    rfl
  · rw [push] at refused
    cases refused

theorem pushScope_error {s s₁ : Session τ} {scope : String} {stop : Stop}
    (push : s.pushScope scope = (.error stop, s₁)) :
    s₁ = s ∧ ∃ e, stop = .abort (.limit e) := by
  rcases s.pushScope_cases scope with eq | ⟨e, eq⟩ <;> rw [eq] at push <;> cases push
  exact ⟨rfl, e, rfl⟩

def closed (s : Session τ) (merge : Bool) (env : Environment) : Session τ :=
  let below := match s.enclosing with
    | [] => { s with env := env }
    | parent :: outer => { s with
        env := env
        handlers := if merge then parent.absorb s.handlers else parent
        enclosing := outer }
  below.observe (.scopePop s.currentScope merge env.depth)

theorem closed_eq (s : Session τ) (merge : Bool) (env : Environment) :
    ∃ handlers enclosing tracer, s.closed merge env = { s with
      env := env, handlers := handlers, enclosing := enclosing, tracer := tracer } := by
  unfold closed
  cases s.enclosing <;> exact ⟨_, _, _, rfl⟩

theorem popScope_of_popped {s : Session τ} {merge : Bool} {env : Environment}
    (popped : s.env.pop? merge = some env) : s.popScope merge = (s.closed merge env).done := by
  unfold popScope closed
  rw [popped]
  cases s.enclosing <;> rfl

theorem popScope_cases (s : Session τ) (merge : Bool) :
    (∃ env, s.env.pop? merge = some env ∧ s.popScope merge = (s.closed merge env).done) ∨
      s.env.pop? merge = none ∧
        s.popScope merge = s.fail (.abort (.structural .scopeUnderflow)) := by
  cases popped : s.env.pop? merge with
  | none =>
    unfold popScope
    rw [popped]
    exact .inr ⟨rfl, rfl⟩
  | some env => exact .inl ⟨env, rfl, popScope_of_popped popped⟩

end Session

theorem Engine.atomic_snd {p : Activity} {s : Session τ} {r : Answer τ Unit}
    (atom : Engine.atomic? p s = some r) : ∃ env handlers pending calls output,
      r.2 = { s with
        env := env, handlers := handlers, pending := pending, calls := calls, output := output } ∧
      env.enclosing = s.env.enclosing ∧ env.current.scope = s.env.current.scope ∧
      pending = (Engine.Start.mk (.perform p) s).request?.or s.pending := by
  cases p with
  | nil => cases atom; exact ⟨_, _, _, _, _, rfl, rfl, rfl, rfl⟩
  | assign path value =>
    cases atom
    exact ⟨_, _, _, _, _, s.write_snd .., Environment.write_enclosing ..,
      Environment.write_scope .., rfl⟩
  | print parts =>
    cases atom
    obtain ⟨calls, output, eq⟩ := Session.offerAll_snd
      (Session.lineCalls (parts.map fun e => (e.eval s.env).text)) s
    exact ⟨_, _, _, _, _, eq, rfl, rfl, rfl⟩
  | throw name payload => cases atom; exact ⟨_, _, _, _, _, rfl, rfl, rfl, rfl⟩
  | kill name payload => cases atom; exact ⟨_, _, _, _, _, rfl, rfl, rfl, rfl⟩
  | install hs =>
    cases atom
    obtain ⟨handlers, eq⟩ := Session.installAll_eq hs s
    exact ⟨_, _, _, _, _, eq, rfl, rfl, rfl⟩
  | compensate scope =>
    simp only [Engine.atomic?] at atom
    split at atom <;> cases atom
    exact ⟨_, _, _, _, _, rfl, rfl, rfl, rfl⟩
  | exit => cases atom; exact ⟨_, _, _, _, _, rfl, rfl, rfl, rfl⟩
  | sequence ps => cases atom
  | parallel ps => cases atom
  | scope id body autoPop => cases atom

theorem Engine.resolve_snd [Tracer τ] (id : String) (v : Verdict) (s : Session τ) :
    ∃ tracer, (Engine.resolve id v s).2 = { s with tracer := tracer } := by
  unfold Engine.resolve
  split
  · split <;> exact ⟨_, rfl⟩
  · exact ⟨_, rfl⟩

theorem Engine.leave_of_popped [Tracer τ] {id : String} {v : Verdict} {s : Session τ}
    {env : Environment} (popped : s.env.pop? v.merge = some env) :
    Engine.leave id true v s = Engine.resolve id v (s.closed v.merge env) := by
  unfold Engine.leave
  rw [if_pos rfl, Session.popScope_of_popped popped]
  rfl

theorem Engine.leave_snd [Tracer τ] (id : String) (autoPop : Bool) (v : Verdict) (s : Session τ) :
    ∃ env handlers enclosing tracer, (Engine.leave id autoPop v s).2 = { s with
      env := env, handlers := handlers, enclosing := enclosing, tracer := tracer } := by
  cases autoPop with
  | true =>
    rcases s.popScope_cases v.merge with ⟨env, popped, -⟩ | ⟨-, refused⟩
    · obtain ⟨handlers, enclosing, tracer, closed⟩ := s.closed_eq v.merge env
      obtain ⟨tracer', resolved⟩ := Engine.resolve_snd id v (s.closed v.merge env)
      rw [Engine.leave_of_popped popped, resolved, closed]
      exact ⟨_, _, _, _, rfl⟩
    · unfold Engine.leave
      rw [if_pos rfl, refused]
      exact ⟨_, _, _, _, rfl⟩
  | false =>
    obtain ⟨tracer, resolved⟩ := Engine.resolve_snd id v s
    exact ⟨_, _, _, _, resolved⟩

/-! ## What every operation keeps -/

/-- A relation between sessions that every operation keeps. -/
structure Session.Kept [Tracer τ] (R : Session τ → Session τ → Prop) : Prop where
  refl : ∀ s, R s s
  trans : ∀ {s s' s''}, R s s' → R s' s'' → R s s''
  step : ∀ s, R s s.step.2
  write : ∀ s p v, R s (s.write p v).2
  offer : ∀ s call, R s (s.offer call).2
  kill : ∀ s f, R s (s.kill f)
  clearKill : ∀ s, R s s.clearKill
  install : ∀ s t p, R s (s.install t p)
  takeHandler : ∀ {s name orFallback p s'}, s.takeHandler? name orFallback = some (p, s') → R s s'
  takeCompensation : ∀ {s scope p s'}, s.takeCompensation? scope = some (p, s') → R s s'
  takeVisible : ∀ {s scope p s'}, s.takeVisible? scope = some (p, s') → R s s'
  observe : ∀ s e, R s (s.observe e)
  pushScope : ∀ s scope, R s (s.pushScope scope).2
  popScope : ∀ s merge, R s (s.popScope merge).2

namespace Session.Kept

open Engine

variable [Tracer τ] {R : Session τ → Session τ → Prop} (kept : Session.Kept R)
include kept

theorem weaken {R' : Session τ → Session τ → Prop} (refl : ∀ s, R' s s)
    (trans : ∀ {s s' s''}, R' s s' → R' s' s'' → R' s s'') (of : ∀ {s s'}, R s s' → R' s s') :
    Session.Kept R' where
  refl := refl
  trans := trans
  step s := of (kept.step s)
  write s p v := of (kept.write s p v)
  offer s call := of (kept.offer s call)
  kill s f := of (kept.kill s f)
  clearKill s := of (kept.clearKill s)
  install s t p := of (kept.install s t p)
  takeHandler taken := of (kept.takeHandler taken)
  takeCompensation taken := of (kept.takeCompensation taken)
  takeVisible taken := of (kept.takeVisible taken)
  observe s e := of (kept.observe s e)
  pushScope s scope := of (kept.pushScope s scope)
  popScope s merge := of (kept.popScope s merge)

theorem andThen {s : Session τ} {r : Answer τ Unit} {next : Session τ → Answer τ Unit}
    (first : R s r.2) (second : ∀ s', R s' (next s').2) : R s (Session.andThen r next).2 := by
  obtain ⟨e, s'⟩ := r
  cases e with
  | ok u => exact kept.trans first (second s')
  | error stop => exact first

theorem offerAll (calls : List Call) (s : Session τ) : R s (Session.offerAll calls s).2 := by
  induction calls generalizing s with
  | nil => exact kept.refl s
  | cons call rest ih => exact kept.andThen (kept.offer s call) ih

theorem installAll (hs : List (Target × Activity)) (s : Session τ) : R s (installAll s hs) := by
  induction hs generalizing s with
  | nil => exact kept.refl s
  | cons h hs ih => exact kept.trans (kept.install s h.1 h.2) (ih _)

theorem delivered (s : Session τ) (f : Fault) : R s (s.delivered f) := by
  have both : R s (s.deliver f).2 := kept.andThen (kept.write ..) fun s' => kept.write ..
  rwa [Session.deliver_eq] at both

theorem resolve (id : String) (v : Verdict) (s : Session τ) : R s (resolve id v s).2 := by
  unfold Engine.resolve
  split
  · split
    · exact kept.observe ..
    · exact kept.refl s
  · exact kept.refl s

theorem leave (id : String) (autoPop : Bool) (v : Verdict) (s : Session τ) :
    R s (leave id autoPop v s).2 := by
  unfold Engine.leave
  split
  · exact kept.andThen (kept.popScope ..) fun s' => kept.resolve ..
  · exact kept.resolve ..

theorem atomic {p : Activity} {s : Session τ} {r : Answer τ Unit} (atom : atomic? p s = some r) :
    R s r.2 := by
  cases p with
  | nil => cases atom; exact kept.refl s
  | assign path value => cases atom; exact kept.write ..
  | print parts => cases atom; exact kept.offerAll ..
  | throw name payload => cases atom; exact kept.refl s
  | kill name payload => cases atom; exact kept.kill ..
  | install hs => cases atom; exact kept.installAll ..
  | compensate scope =>
    simp only [atomic?] at atom
    split at atom <;> cases atom
    exact kept.refl s
  | exit => cases atom; exact kept.refl s
  | sequence ps => cases atom
  | parallel ps => cases atom
  | scope id body autoPop => cases atom

theorem undoing {s s' : Session τ} {id : String} {k : Fault} {c : Activity}
    (taken : (s.observe (.killObserved id k.name)).takeCompensation? id = some (c, s')) :
    R s (s'.clearKill.observe (.compensationStart id)) := by
  have took : R s s' := kept.trans (kept.observe ..) (kept.takeCompensation taken)
  exact kept.trans took (kept.trans (kept.clearKill s') (kept.observe ..))

theorem restored (s : Session τ) (id : String) (k : Fault) :
    R s ((s.kill k).observe (.compensationEnd id)) := kept.trans (kept.kill ..) (kept.observe ..)

theorem handling {s s' : Session τ} {f : Fault} {h : Activity}
    (taken : s.takeHandler? f.name true = some (h, s')) (e : Event) :
    R s ((s'.delivered f).observe e) :=
  kept.trans (kept.trans (kept.takeHandler taken) (kept.delivered ..)) (kept.observe ..)

/-- What every operation keeps, every work keeps. -/
theorem yields {w : Work} {s : Session τ} {starts : List (Start τ)} {v : Verdict}
    {r : Answer τ Unit} (h : Yields w s starts v r) : R s r.2 := by
  induction h with
  | @refused p s s₁ stop step =>
    have stepped := kept.step s
    rwa [step] at stepped
  | @stepped p s s₁ starts r step rest ih =>
    have stepped := kept.step s
    rw [step] at stepped
    exact kept.trans stepped ih
  | atomic atom => exact kept.atomic atom
  | sequence children ih => exact ih
  | parallel children ih => exact ih
  | found taken undo ih => exact kept.trans (kept.takeVisible taken) ih
  | @unopened id body autoPop s s₁ stop push =>
    have pushed := kept.pushScope s id
    rwa [push] at pushed
  | @unsettled id body autoPop s s₁ s₂ starts stop v push settle ih =>
    have pushed := kept.pushScope s id
    rw [push] at pushed
    exact kept.trans pushed ih
  | @settled id body autoPop s s₁ s₂ starts v r push settle left ih =>
    have pushed := kept.pushScope s id
    rw [push] at pushed
    rw [← left]
    exact kept.trans (kept.trans pushed ih) (kept.leave ..)
  | finished => exact kept.refl _
  | passed passes rest ih => exact ih
  | next stays first rest ih ih' => exact kept.trans ih ih'
  | stopped stays first ih => exact ih
  | quiet body none ih => exact ih
  | killed body pending none ih => exact kept.trans ih (kept.observe ..)
  | undone body pending taken undo ih ih' =>
    exact kept.trans ih (kept.trans (kept.undoing taken) (kept.trans ih' (kept.restored ..)))
  | interrupted body pending taken undo ih ih' =>
    exact kept.trans ih (kept.trans (kept.undoing taken) ih')
  | captured body none ih => exact kept.trans ih (kept.observe ..)
  | dispatched body taken handling ih ih' =>
    exact kept.trans ih (kept.trans (kept.handling taken _) ih')
  | aborted body ih => exact ih

theorem begins {w : Work} {s : Session τ} {starts : List (Start τ)} {v : Verdict}
    {r : Answer τ Unit} (h : Yields w s starts v r) : ∀ x ∈ starts, R s x.session := by
  induction h with
  | refused step => exact List.forall_mem_singleton.mpr (kept.refl _)
  | @stepped p s s₁ starts r step rest ih =>
    have stepped := kept.step s
    rw [step] at stepped
    exact List.forall_mem_cons.mpr ⟨kept.refl s, fun x among => kept.trans stepped (ih x among)⟩
  | atomic atom => exact List.forall_mem_singleton.mpr (kept.refl _)
  | sequence children ih | parallel children ih =>
    exact List.forall_mem_cons.mpr ⟨kept.refl _, ih⟩
  | found taken undo ih =>
    exact List.forall_mem_cons.mpr
      ⟨kept.refl _, fun x among => kept.trans (kept.takeVisible taken) (ih x among)⟩
  | unopened push => exact List.forall_mem_singleton.mpr (kept.refl _)
  | @unsettled id body autoPop s s₁ s₂ starts stop v push settle ih =>
    have pushed := kept.pushScope s id
    rw [push] at pushed
    exact List.forall_mem_cons.mpr ⟨kept.refl s, fun x among => kept.trans pushed (ih x among)⟩
  | @settled id body autoPop s s₁ s₂ starts v r push settle left ih =>
    have pushed := kept.pushScope s id
    rw [push] at pushed
    exact List.forall_mem_cons.mpr ⟨kept.refl s, fun x among => kept.trans pushed (ih x among)⟩
  | finished => exact List.forall_mem_singleton.mpr (kept.refl _)
  | passed passes rest ih => exact List.forall_mem_cons.mpr ⟨kept.refl _, ih⟩
  | next stays first rest ih ih' =>
    refine List.forall_mem_cons.mpr ⟨kept.refl _, List.forall_mem_append.mpr ⟨ih, ?_⟩⟩
    exact fun x among => kept.trans (kept.yields first) (ih' x among)
  | stopped stays first ih => exact List.forall_mem_cons.mpr ⟨kept.refl _, ih⟩
  | quiet body none ih => exact List.forall_mem_cons.mpr ⟨kept.refl _, ih⟩
  | killed body pending none ih => exact List.forall_mem_cons.mpr ⟨kept.refl _, ih⟩
  | undone body pending taken undo ih ih' | interrupted body pending taken undo ih ih' =>
    have begun := kept.trans (kept.yields body) (kept.undoing taken)
    refine List.forall_mem_cons.mpr ⟨kept.refl _, List.forall_mem_append.mpr ⟨ih, ?_⟩⟩
    exact fun x among => kept.trans begun (ih' x among)
  | captured body none ih => exact List.forall_mem_cons.mpr ⟨kept.refl _, ih⟩
  | @dispatched role id p h s s₁ s₂ starts starts' f v r body taken handling ih ih' =>
    have begun := kept.trans (kept.yields body)
      (kept.handling taken (.faultDispatch s₁.currentScope f.name))
    refine List.forall_mem_cons.mpr ⟨kept.refl _, List.forall_mem_append.mpr ⟨ih, ?_⟩⟩
    exact fun x among => kept.trans begun (ih' x among)
  | aborted body ih => exact List.forall_mem_cons.mpr ⟨kept.refl _, ih⟩

end Session.Kept

namespace Session

variable [Tracer τ]

theorem kept_limits : Kept fun s s' : Session τ => s'.limits = s.limits where
  refl _ := rfl
  trans first second := second.trans first
  step s := by rw [step_snd]
  write s p v := by rw [write_snd]
  offer s call := by
    obtain ⟨output, eq⟩ := s.offer_snd call
    rw [eq]
  kill _ _ := rfl
  clearKill _ := rfl
  install _ _ _ := rfl
  takeHandler taken := by
    obtain ⟨h, -, rfl⟩ := takeHandler?_eq taken
    rfl
  takeCompensation taken := by
    obtain ⟨h, -, rfl⟩ := takeCompensation?_eq taken
    rfl
  takeVisible taken := by
    obtain ⟨h, outer, -, rfl⟩ := takeVisible?_eq taken
    rfl
  observe _ _ := rfl
  pushScope s scope := by
    rcases s.pushScope_cases scope with eq | ⟨e, eq⟩ <;> rw [eq] <;> rfl
  popScope s merge := by
    rcases s.popScope_cases merge with ⟨env, -, eq⟩ | ⟨-, eq⟩ <;> rw [eq]
    · unfold closed
      cases s.enclosing <;> rfl
    · rfl

end Session

/-! ## Where an abort comes from -/

namespace Engine

theorem ok_ne_abort (a : Abort) : (Except.ok () : Except Stop Unit) ≠ .error (.abort a) := by
  intro same
  cases same

theorem fault_ne_abort (f : Fault) (a : Abort) :
    (Except.error (.fault f) : Except Stop Unit) ≠ .error (.abort a) := by
  intro same
  cases same

theorem step_ne_fault (s : Session τ) (f : Fault) : s.step.1 ≠ .error (.fault f) := by
  unfold Session.step
  dsimp only
  split <;> nofun

theorem offerAll_ne_abort (calls : List Call) (s : Session τ) (a : Abort) :
    (Session.offerAll calls s).1 ≠ .error (.abort a) := by
  induction calls generalizing s with
  | nil => nofun
  | cons call rest ih =>
    unfold Session.offerAll Session.offer
    dsimp only
    split
    · nofun
    · split
      · exact ih _
      · exact ih _

variable [Tracer τ]

/-- The session is the one in which an operation has answered with the abort. -/
inductive Refuses : Abort → Session τ → Prop
  | exit {s : Session τ} : Refuses .exit s
  | step {s s' : Session τ} {a} : s.step = (.error (.abort a), s') → Refuses a s'
  | write {s s' : Session τ} {p v a} : s.write p v = (.error (.abort a), s') → Refuses a s'
  | push {s s' : Session τ} {id a} : s.pushScope id = (.error (.abort a), s') → Refuses a s'
  | pop {s s' : Session τ} {merge a} : s.popScope merge = (.error (.abort a), s') → Refuses a s'

theorem atomic_refuses {p : Activity} {s s' : Session τ} {a : Abort}
    (atom : atomic? p s = some (.error (.abort a), s')) : Refuses a s' := by
  cases p with
  | nil => cases atom
  | assign path value => exact .write (Option.some.inj atom)
  | print parts =>
    have answer := congrArg Prod.fst (Option.some.inj atom)
    exact absurd answer (offerAll_ne_abort _ s a)
  | throw name payload => cases atom
  | kill name payload => cases atom
  | install hs => cases atom
  | compensate scope =>
    simp only [atomic?] at atom
    split at atom <;> cases atom
  | exit => cases atom; exact .exit
  | sequence ps => cases atom
  | parallel ps => cases atom
  | scope id body autoPop => cases atom

theorem resolve_ne_abort (id : String) (v : Verdict) (s : Session τ) (a : Abort) :
    (resolve id v s).1 ≠ .error (.abort a) := by
  unfold resolve
  split
  · split <;> nofun
  · nofun

theorem leave_refuses {id : String} {autoPop : Bool} {v : Verdict} {s s' : Session τ} {a : Abort}
    (left : leave id autoPop v s = (.error (.abort a), s')) : Refuses a s' := by
  unfold leave at left
  split at left
  · cases popped : s.popScope v.merge with
    | mk e s₁ =>
      rw [popped] at left
      cases e with
      | ok u => exact absurd (congrArg Prod.fst left) (resolve_ne_abort id v s₁ a)
      | error stop =>
        cases left
        exact .pop popped
  · exact absurd (congrArg Prod.fst left) (resolve_ne_abort id v s a)

theorem Yields.refuses {w : Work} {s : Session τ} {starts : List (Start τ)} {v : Verdict}
    {r : Answer τ Unit} (h : Yields w s starts v r) (a : Abort) (aborts : r.1 = .error (.abort a)) :
    Refuses a r.2 := by
  induction h with
  | refused step => cases aborts; exact .step step
  | stepped step rest ih => exact ih aborts
  | @atomic p s r atom =>
    obtain ⟨e, s'⟩ := r
    cases aborts
    exact atomic_refuses atom
  | sequence children ih => exact ih aborts
  | parallel children ih => exact ih aborts
  | found taken undo ih => exact ih aborts
  | unopened push => cases aborts; exact .push push
  | unsettled push settle ih => exact ih aborts
  | @settled id body autoPop s s₁ s₂ starts v r push settle left ih =>
    obtain ⟨e, s'⟩ := r
    cases aborts
    exact leave_refuses left
  | finished => cases aborts
  | passed passes rest ih => exact ih aborts
  | next stays first rest ih ih' => exact ih' aborts
  | stopped stays first ih => exact ih aborts
  | quiet body none ih => cases aborts
  | killed body pending none ih => cases aborts
  | undone body pending taken undo ih ih' => cases aborts
  | interrupted body pending taken undo ih ih' => exact ih' aborts
  | captured body none ih => cases aborts
  | dispatched body taken handling ih ih' => exact ih' aborts
  | aborted body ih => exact ih aborts

end Engine

end Orchestration
