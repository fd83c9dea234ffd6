import Orchestration.Proofs.Operations

/-!
# Sessions in another guise

Most operations look at the variables and the handler tables only. They do the same in a session
that is given another host, other limits, another request to terminate or another tracer. Where the
tracers take in the same events, this holds also of the operations that close a scope, and of a
whole work if its calls, its steps and its scopes are refused alike. That calls are refused alike
may hold as long as there are few of them; so what must hold of the sessions comes as two
properties, one that the operations hand on and one that is known at the end of the work and handed
back.
-/

set_option autoImplicit false

namespace Orchestration

open Engine

/-- What a session is given instead of its host, its limits, its request and its tracer. -/
structure Guise (τ τ' : Type) where
  host : Host → Host
  limits : Option Limits → Option Limits
  pending : Option Fault → Option Fault
  tracer : τ → τ'

namespace Guise

variable {τ τ' : Type}

def Obeys (g : Guise τ τ') : Prop := ∀ f, g.pending (some f) = some f

/-- Only the clock of the host is another one. -/
def Reclocks (g : Guise τ τ') : Prop :=
  ∀ h, (g.host h).refuses = h.refuses ∧ (g.host h).keeps = h.keeps

def Follows [Tracer τ] [Tracer τ'] (g : Guise τ τ') : Prop :=
  ∀ t e, g.tracer (Tracer.observe t e) = Tracer.observe (g.tracer t) e

end Guise

namespace Session

variable {τ τ' : Type}

def guised (g : Guise τ τ') (s : Session τ) : Session τ' where
  host := g.host s.host
  limits := g.limits s.limits
  steps := s.steps
  env := s.env
  handlers := s.handlers
  enclosing := s.enclosing
  pending := g.pending s.pending
  calls := s.calls
  output := s.output
  tracer := g.tracer s.tracer

variable (g : Guise τ τ')

theorem step_guised {s : Session τ} (same : (s.guised g).refusal? = s.refusal?) :
    (s.guised g).step = (s.step.1, s.step.2.guised g) := by
  cases refusal : s.refusal? with
  | none =>
    rw [step_of_passed refusal, step_of_passed (same.trans refusal)]
    rfl
  | some e =>
    rw [step_of_refusal refusal, step_of_refusal (same.trans refusal)]
    rfl

theorem write_guised (s : Session τ) (p : Path) (v : Value) :
    (s.guised g).write p v = ((s.write p v).1, (s.write p v).2.guised g) := by
  unfold Session.write guised
  dsimp only
  split <;> rfl

theorem delivered_guised (s : Session τ) (f : Fault) :
    (s.guised g).delivered f = (s.delivered f).guised g := rfl

theorem offer_guised {s : Session τ} {call : Call}
    (refuses : (g.host s.host).refuses s.calls call = s.host.refuses s.calls call)
    (keeps : (g.host s.host).keeps = s.host.keeps) :
    (s.guised g).offer call = ((s.offer call).1, (s.offer call).2.guised g) := by
  unfold offer guised
  dsimp only
  rw [refuses, keeps]
  split
  · rfl
  · split <;> rfl

theorem installAll_guised (hs : List (Target × Activity)) (s : Session τ) :
    installAll (s.guised g) hs = (installAll s hs).guised g := by
  induction hs generalizing s with
  | nil => rfl
  | cons h hs ih => exact ih (s.install h.1 h.2)

theorem takeHandler?_guised (s : Session τ) (name : String) (orFallback : Bool) :
    (s.guised g).takeHandler? name orFallback =
      (s.takeHandler? name orFallback).map fun x => (x.1, x.2.guised g) := by
  unfold takeHandler?
  rw [Option.map_map]
  rfl

theorem takeCompensation?_guised (s : Session τ) (scope : String) :
    (s.guised g).takeCompensation? scope =
      (s.takeCompensation? scope).map fun x => (x.1, x.2.guised g) := by
  unfold takeCompensation?
  rw [Option.map_map]
  rfl

theorem takeVisible?_guised (s : Session τ) (scope : String) :
    (s.guised g).takeVisible? scope =
      (s.takeVisible? scope).map fun x => (x.1, x.2.guised g) := by
  have tables : (s.guised g).tables = s.tables := rfl
  unfold takeVisible?
  rw [tables]
  rcases Handlers.takeInnermost? scope s.tables with _ | ⟨p, _ | ⟨h, outer⟩⟩ <;> rfl

variable {g}

theorem kill_guised (obeys : g.Obeys) (s : Session τ) (f : Fault) :
    (s.guised g).kill f = (s.kill f).guised g := by
  unfold kill guised
  rw [obeys]

variable [Tracer τ] [Tracer τ'] (follows : g.Follows)
include follows

theorem observe_guised (s : Session τ) (e : Event) :
    (s.guised g).observe e = (s.observe e).guised g := by
  unfold observe guised
  dsimp only
  rw [follows]

theorem opened_guised (s : Session τ) (id : String) :
    (s.guised g).opened id = (s.opened id).guised g :=
  observe_guised follows
    { s with env := s.env.push id, handlers := .empty, enclosing := s.tables } _

theorem pushScope_guised {s : Session τ}
    (most : (s.guised g).effectiveLimits.scopeDepth = s.effectiveLimits.scopeDepth) (id : String) :
    (s.guised g).pushScope id = ((s.pushScope id).1, (s.pushScope id).2.guised g) := by
  have depth : (s.guised g).depth = s.depth := rfl
  have error : (s.guised g).effectiveLimits.depthError? s.depth =
      s.effectiveLimits.depthError? s.depth := by
    unfold Limits.depthError?
    rw [most]
  unfold pushScope
  rw [depth, error]
  split
  · rfl
  · exact congrArg done (opened_guised follows s id)

theorem closed_guised (s : Session τ) (merge : Bool) (env : Environment) :
    (s.guised g).closed merge env = (s.closed merge env).guised g := by
  have enclosing : (s.guised g).enclosing = s.enclosing := rfl
  unfold closed
  rw [enclosing]
  unfold observe guised
  dsimp only
  rw [follows]
  cases s.enclosing <;> rfl

theorem popScope_guised (s : Session τ) (merge : Bool) :
    (s.guised g).popScope merge = ((s.popScope merge).1, (s.popScope merge).2.guised g) := by
  have env : (s.guised g).env = s.env := rfl
  cases popped : s.env.pop? merge with
  | none =>
    unfold popScope
    rw [env, popped]
    rfl
  | some env =>
    have popped' : (s.guised g).env.pop? merge = some env := popped
    rw [popScope_of_popped popped, popScope_of_popped popped', closed_guised follows]
    rfl

end Session

/-- Calls are taken alike in sessions with a property that the operations hand on, if they lead to
sessions with one that the operations hand back. -/
structure Guise.Heard {τ τ' : Type} [Tracer τ] (g : Guise τ τ') (fit spared : Session τ → Prop) :
    Prop where
  later : Session.Kept fun s s' => fit s → fit s'
  earlier : Session.Kept fun s s' => spared s' → spared s
  offer : ∀ (s : Session τ) (call : Call), fit s → spared (s.offer call).2 →
    (s.guised g).offer call = ((s.offer call).1, (s.offer call).2.guised g)

/-- The guise keeps the request and follows the tracer. In such sessions steps and scopes are
refused alike as well, as far as the answer passes. -/
structure Guise.Alike {τ τ' : Type} [Tracer τ] [Tracer τ'] (g : Guise τ τ')
    (fit spared : Session τ → Prop) (passes : Except Stop Unit → Prop) : Prop
    extends g.Heard fit spared where
  follows : g.Follows
  pending : g.pending = id
  ok : passes (.ok ())
  fault : ∀ f, passes (.error (.fault f))
  step : ∀ s : Session τ, fit s → passes s.step.1 → (s.guised g).refusal? = s.refusal?
  pushScope : ∀ (s : Session τ) (id : String), fit s → passes (s.pushScope id).1 →
    (s.guised g).pushScope id = ((s.pushScope id).1, (s.pushScope id).2.guised g)

namespace Guise

open Session

variable {τ τ' : Type} {g : Guise τ τ'} [Tracer τ]

theorem Reclocks.heard (reclocks : g.Reclocks) (limits : Option Limits) :
    g.Heard (·.limits = limits) fun _ => True where
  later := kept_limits.weaken (fun _ => id) (fun first second => second ∘ first)
    fun same => same.trans
  earlier := kept_limits.weaken (fun _ => id) (fun _ _ => id) fun _ => id
  offer s _ _ _ :=
    offer_guised g (congrFun (congrFun (reclocks s.host).1 _) _) (reclocks s.host).2

theorem Heard.offerAll {fit spared : Session τ → Prop} (heard : g.Heard fit spared)
    (made : List Call) {s : Session τ} (fits : fit s) (safe : spared (offerAll made s).2) :
    Session.offerAll made (s.guised g) =
      ((Session.offerAll made s).1, (Session.offerAll made s).2.guised g) := by
  induction made generalizing s with
  | nil => rfl
  | cons call rest ih =>
    have safe₁ : spared (s.offer call).2 := by
      unfold Session.offerAll at safe
      generalize s.offer call = answer at safe
      obtain ⟨e, s'⟩ := answer
      cases e with
      | ok u => exact heard.earlier.offerAll rest s' safe
      | error stop => exact safe
    have fits₁ := heard.later.offer s call fits
    unfold Session.offerAll at safe ⊢
    rw [heard.offer s call fits safe₁]
    generalize s.offer call = answer at *
    obtain ⟨e, s'⟩ := answer
    cases e with
    | ok u => exact ih fits₁ safe
    | error stop => rfl

end Guise

namespace Engine

open Session

variable {τ τ' : Type} {g : Guise τ τ'}

def Start.guised (g : Guise τ τ') (x : Start τ) : Start τ' := ⟨x.work, x.session.guised g⟩

theorem atomic?_guised [Tracer τ] {fit spared : Session τ → Prop} (heard : g.Heard fit spared)
    (obeys : g.Obeys) {p : Activity} {s : Session τ} {r : Answer τ Unit}
    (atom : atomic? p s = some r) (fits : fit s) (safe : spared r.2) :
    atomic? p (s.guised g) = some (r.1, r.2.guised g) := by
  cases p with
  | assign path value =>
    cases atom
    exact congrArg some (write_guised g s path (value.eval s.env))
  | print parts =>
    cases atom
    exact congrArg some (heard.offerAll _ fits safe)
  | install hs =>
    cases atom
    exact congrArg (fun s' => some (done s')) (installAll_guised g hs s)
  | kill name payload =>
    cases atom
    exact congrArg (fun s' => some (done s')) (kill_guised obeys s (makeFault s name payload))
  | compensate scope =>
    simp only [atomic?, takeVisible?_guised, Option.isNone_map] at atom ⊢
    split at atom <;> cases atom
    next none => exact if_pos none
  | nil | throw name payload | exit => cases atom; rfl
  | sequence ps | parallel ps | scope id body autoPop => cases atom

variable [Tracer τ] [Tracer τ'] (follows : g.Follows)
include follows

theorem resolve_guised (id : String) (v : Verdict) (s : Session τ) :
    resolve id v (s.guised g) = ((resolve id v s).1, (resolve id v s).2.guised g) := by
  unfold resolve
  split
  · split
    · rw [observe_guised follows]
      rfl
    · rfl
  · rfl

theorem leave_guised (id : String) (autoPop : Bool) (v : Verdict) (s : Session τ) :
    leave id autoPop v (s.guised g) =
      ((leave id autoPop v s).1, (leave id autoPop v s).2.guised g) := by
  unfold leave
  split
  · rw [popScope_guised follows]
    generalize s.popScope v.merge = answer
    obtain ⟨e, s'⟩ := answer
    cases e with
    | ok u => exact resolve_guised follows id v s'
    | error stop => rfl
  · exact resolve_guised follows id v s

omit follows

/-- A work is done alike in the guise if it starts in such a session, ends in one that is spared,
and its result passes. -/
theorem Yields.guised {fit spared : Session τ → Prop} {passes : Except Stop Unit → Prop}
    (alike : g.Alike fit spared passes) {w : Work} {s : Session τ} {starts : List (Start τ)}
    {v : Verdict} {r : Answer τ Unit} (h : Yields w s starts v r) (fits : fit s)
    (safe : spared r.2) (passed : passes r.1) :
    Yields w (s.guised g) (starts.map (Start.guised g)) v (r.1, r.2.guised g) := by
  obtain ⟨host, limits, pending, tracer⟩ := g
  obtain rfl : pending = id := alike.pending
  have follows := alike.follows
  have later := alike.later
  have earlier := alike.earlier
  have ok := alike.ok
  induction h with
  | refused step =>
    exact .refused (by rw [step_guised _ (alike.step _ fits (by rwa [step])), step])
  | @stepped p s s₁ starts r step rest ih =>
    have fits₁ := later.step s fits
    have step' := step_guised _ (alike.step s fits (by rw [step]; exact ok))
    rw [step] at fits₁ step'
    exact .stepped step' (ih fits₁ safe passed)
  | atomic atom => exact .atomic (atomic?_guised alike.toHeard (fun _ => rfl) atom fits safe)
  | sequence children ih => exact .sequence (ih fits safe passed)
  | parallel children ih => exact .parallel (ih fits safe passed)
  | found taken undo ih =>
    exact .found (by rw [takeVisible?_guised, taken]; rfl)
      (ih (later.takeVisible taken fits) safe passed)
  | unopened push =>
    exact .unopened (by rw [alike.pushScope _ _ fits (by rwa [push]), push])
  | @unsettled id body autoPop s s₁ s₂ starts stop v push settle ih =>
    have fits₁ := later.pushScope s id fits
    have push' := alike.pushScope s id fits (by rw [push]; exact ok)
    rw [push] at fits₁ push'
    exact .unsettled push' (ih fits₁ safe passed)
  | @settled id body autoPop s s₁ s₂ starts v r push settle left ih =>
    have fits₁ := later.pushScope s id fits
    have push' := alike.pushScope s id fits (by rw [push]; exact ok)
    rw [push] at fits₁ push'
    subst left
    exact .settled push' (ih fits₁ (earlier.leave _ _ _ _ safe) ok) (leave_guised follows ..)
  | finished => exact .finished
  | passed skipped rest ih => exact .passed skipped (ih fits safe passed)
  | next stays first rest ih ih' =>
    rw [List.map_cons, List.map_append]
    exact .next stays (ih fits (earlier.yields rest safe) ok)
      (ih' (later.yields first fits) safe passed)
  | stopped stays first ih => exact .stopped stays (ih fits safe passed)
  | quiet body none ih => exact .quiet (ih fits safe ok) none
  | killed body pending none ih =>
    dsimp only
    rw [← observe_guised follows]
    exact .killed (ih fits (earlier.observe _ _ safe) ok) pending
      (by rw [observe_guised follows, takeCompensation?_guised, none]; rfl)
  | undone body pending taken undo ih ih' =>
    have fits₂ := later.undoing taken (later.yields body fits)
    have safe₃ := earlier.restored _ _ _ safe
    have undoing := ih' fits₂ safe₃ ok
    rw [← observe_guised follows] at undoing
    dsimp only
    rw [List.map_cons, List.map_append, ← observe_guised follows]
    exact .undone (ih fits (earlier.undoing taken (earlier.yields undo safe₃)) ok) pending
      (by rw [observe_guised follows, takeCompensation?_guised, taken]; rfl) undoing
  | interrupted body pending taken undo ih ih' =>
    have undoing := ih' (later.undoing taken (later.yields body fits)) safe passed
    rw [← observe_guised follows] at undoing
    rw [List.map_cons, List.map_append]
    exact .interrupted (ih fits (earlier.undoing taken (earlier.yields undo safe)) ok) pending
      (by rw [observe_guised follows, takeCompensation?_guised, taken]; rfl) undoing
  | captured body none ih =>
    dsimp only
    rw [← observe_guised follows]
    exact .captured (ih fits (earlier.observe _ _ safe) (alike.fault _))
      (by rw [takeHandler?_guised, none]; rfl)
  | dispatched body taken handling ih ih' =>
    have handler := ih' (later.handling taken _ (later.yields body fits)) safe passed
    rw [← observe_guised follows] at handler
    rw [List.map_cons, List.map_append]
    have safe₁ := earlier.handling taken _ (earlier.yields handling safe)
    exact .dispatched (ih fits safe₁ (alike.fault _))
      (by rw [takeHandler?_guised, taken]; rfl) handler
  | aborted body ih => exact .aborted (ih fits safe passed)

end Engine

end Orchestration
