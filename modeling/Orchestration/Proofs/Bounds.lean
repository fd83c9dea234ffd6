import Orchestration.Proofs.Events
import Orchestration.Proofs.Potential

/-!
# Bounds of a run

Prices of one for the activities of a kind bound how often they are performed, a fee of
one bounds how many handlers start, and the events of a run announce those that a scope
starts. The steps are bounded by `Within`, and so is every count that an operation error
can report.
-/

set_option autoImplicit false

namespace Orchestration

open Activity Session

namespace Engine

variable {τ : Type}

/-! ## Handlers that start are announced -/

def Start.Plain (x : Start τ) : Prop := ∀ role, role ≠ .body → x.settles role = false

theorem plain_run {p : Activity} {s : Session τ} : (Start.mk (.run p) s).Plain := fun _ _ => rfl

theorem plain_perform {p : Activity} {s : Session τ} : (Start.mk (.perform p) s).Plain :=
  fun _ _ => rfl

theorem plain_children {ends : Bool} {ps : List Activity} {s : Session τ} :
    (Start.mk (.children ends ps) s).Plain := fun _ _ => rfl

theorem plain_body {id : String} {p : Activity} {s : Session τ} :
    (Start.mk (.settle .body id p) s).Plain := by
  intro role other
  simp [Start.settles, other.symm]

/-- The events announce every activity that is settled out of a table, but for the first start,
which the events before them have announced. -/
def Announces (first : Start τ) (es : List Event) (starts : List (Start τ)) : Prop :=
  ∀ role k, Role.announced role = some k →
    starts.countP (Start.settles role) = (first.settles role).toNat + es.countP (·.kind = k)

theorem announces_singleton (x : Start τ) {es : List Event} (quiet : Unannounced es) :
    Announces x es [x] := by
  intro role k announced
  rw [quiet role k announced]
  cases found : x.settles role <;> simp [found]

theorem Announces.cons {y : Start τ} {es : List Event} {starts : List (Start τ)}
    (rest : Announces y es starts) (x : Start τ) (plain : y.Plain) : Announces x es (x :: starts) := by
  intro role k announced
  have named : role ≠ .body := by
    intro body
    rw [body] at announced
    cases announced
  rw [List.countP_cons, rest role k announced, plain role named]
  cases x.settles role with
  | false => simp
  | true => simp [Nat.add_comm]

theorem Announces.append {x y : Start τ} {es es' : List Event} {starts starts' : List (Start τ)}
    (first : Announces x es starts) (second : Announces y es' starts') (plain : y.Plain) :
    Announces x (es ++ es') (starts ++ starts') := by
  intro role k announced
  have named : role ≠ .body := by
    intro body
    rw [body] at announced
    cases announced
  rw [List.countP_append, List.countP_append, first role k announced, second role k announced,
    plain role named]
  simp
  omega

theorem Announces.then {x : Start τ} {es es' : List Event} {starts : List (Start τ)}
    (first : Announces x es starts) (quiet : Unannounced es') : Announces x (es ++ es') starts := by
  intro role k announced
  rw [List.countP_append, first role k announced, quiet role k announced]
  rfl

theorem Announces.settle {x y : Start τ} {es es' : List Event} {starts starts' : List (Start τ)}
    (first : Announces x es starts) (second : Announces y es' starts') (e : Event)
    (announces : ∀ role k, Role.announced role = some k → y.settles role = decide (e.kind = k)) :
    Announces x (es ++ e :: es') (starts ++ starts') := by
  intro role k announced
  rw [List.countP_append, List.countP_append, List.countP_cons, first role k announced,
    second role k announced]
  have same := announces role k announced
  cases found : y.settles role <;> simp_all <;> omega

theorem compensation_announced {id : String} {p : Activity} {s : Session τ} (role : Role)
    (k : EventKind) (announced : Role.announced role = some k) :
    (Start.mk (.settle .compensation id p) s).settles role =
      decide ((Event.compensationStart id).kind = k) := by
  cases role <;> cases announced <;> rfl

theorem handler_announced {id scope fault : String} {p : Activity} {s : Session τ} (role : Role)
    (k : EventKind) (announced : Role.announced role = some k) :
    (Start.mk (.settle .handler id p) s).settles role =
      decide ((Event.faultDispatch scope fault).kind = k) := by
  cases role <;> cases announced <;> rfl

variable [Tracer τ]

theorem Yields.announces {w : Work} {s : Session τ} {starts : List (Start τ)} {v : Verdict}
    {r : Answer τ Unit} (h : Yields w s starts v r) :
    ∃ es, s.Logs es r.2 ∧ Announces ⟨w, s⟩ es starts := by
  induction h with
  | refused step => exact ⟨[], logs_step step, announces_singleton _ unannounced_nil⟩
  | stepped step rest ih =>
    obtain ⟨es, logs, known⟩ := ih
    exact ⟨es, (logs_step step).append logs, known.cons _ plain_perform⟩
  | atomic atom => exact ⟨[], logs_atomic atom, announces_singleton _ unannounced_nil⟩
  | sequence children ih =>
    obtain ⟨es, logs, known⟩ := ih
    exact ⟨es, logs, known.cons _ plain_children⟩
  | parallel children ih =>
    obtain ⟨es, logs, known⟩ := ih
    exact ⟨es, logs, known.cons _ plain_children⟩
  | found taken undo ih =>
    obtain ⟨es, logs, known⟩ := ih
    exact ⟨es, (logs_takeVisible? taken).append logs, known.cons _ plain_run⟩
  | unopened push =>
    obtain ⟨rfl, -⟩ := pushScope_error push
    exact ⟨[], logs_refl _, announces_singleton _ unannounced_nil⟩
  | @unsettled id body autoPop s s₁ s₂ starts stop v push settle ih =>
    obtain ⟨es, logs, known⟩ := ih
    have opened := announces_singleton ⟨.perform (.scope id body autoPop), s⟩
      (unannounced_event (e := .scopePush id (s.depth + 1)) rfl)
    exact ⟨_, (logs_pushScope_ok push).append logs, opened.append known plain_body⟩
  | @settled id body autoPop s s₁ s₂ starts v r push settle left ih =>
    obtain ⟨es, logs, known⟩ := ih
    obtain ⟨es', logs', quiet⟩ := logs_leave id autoPop v s₂
    rw [left] at logs'
    have opened := announces_singleton ⟨.perform (.scope id body autoPop), s⟩
      (unannounced_event (e := .scopePush id (s.depth + 1)) rfl)
    exact ⟨_, ((logs_pushScope_ok push).append logs).append logs',
      (opened.append known plain_body).then quiet⟩
  | finished => exact ⟨[], logs_refl _, announces_singleton _ unannounced_nil⟩
  | passed passes rest ih =>
    obtain ⟨es, logs, known⟩ := ih
    exact ⟨es, logs, known.cons _ plain_children⟩
  | next stays first rest ih ih' =>
    obtain ⟨es, logs, known⟩ := ih
    obtain ⟨es', logs', known'⟩ := ih'
    exact ⟨_, logs.append logs', (known.append known' plain_children).cons _ plain_run⟩
  | stopped stays first ih =>
    obtain ⟨es, logs, known⟩ := ih
    exact ⟨es, logs, known.cons _ plain_run⟩
  | quiet body none ih =>
    obtain ⟨es, logs, known⟩ := ih
    exact ⟨es, logs, known.cons _ plain_run⟩
  | @killed role id p s s₁ starts k body pending none ih =>
    obtain ⟨es, logs, known⟩ := ih
    exact ⟨_, logs.observe _, (known.cons _ plain_run).then (unannounced_event rfl)⟩
  | @undone role id p c s s₁ s₂ s₃ starts starts' k v body pending taken undo ih ih' =>
    obtain ⟨es, logs, known⟩ := ih
    obtain ⟨es', logs', known'⟩ := ih'
    have seen := (known.cons ⟨.settle role id p, s⟩ plain_run).then
      (unannounced_event (e := .killObserved id k.name) rfl)
    have undone := seen.settle known' _ compensation_announced
    rw [List.append_assoc] at undone
    exact ⟨_, (logs.append (logs_undoing taken logs')).observe (.compensationEnd id),
      undone.then (unannounced_event rfl)⟩
  | @interrupted role id p c s s₁ s₂ s₃ starts starts' k v stop body pending taken undo ih ih' =>
    obtain ⟨es, logs, known⟩ := ih
    obtain ⟨es', logs', known'⟩ := ih'
    have seen := (known.cons ⟨.settle role id p, s⟩ plain_run).then
      (unannounced_event (e := .killObserved id k.name) rfl)
    have undone := seen.settle known' _ compensation_announced
    rw [List.append_assoc] at undone
    exact ⟨_, logs.append (logs_undoing taken logs'), undone⟩
  | captured body none ih =>
    obtain ⟨es, logs, known⟩ := ih
    exact ⟨_, logs.observe _, (known.cons _ plain_run).then (unannounced_event rfl)⟩
  | dispatched body taken handling ih ih' =>
    obtain ⟨es, logs, known⟩ := ih
    obtain ⟨es', logs', known'⟩ := ih'
    exact ⟨_, logs.append (logs_handling taken logs'),
      (known.cons _ plain_run).settle known' _ handler_announced⟩
  | aborted body ih =>
    obtain ⟨es, logs, known⟩ := ih
    exact ⟨es, logs, known.cons _ plain_run⟩

/-! ## Steps -/

theorem run_within (p : Activity) (s : Session τ) : Within nodes 1 p.nodes s (p.run s) := by
  have enough : p.nodes + s.stored ≤ p.nodes + s.stored := Nat.le_refl _
  obtain ⟨r, answered, within⟩ := runWithin_within (p.nodes + s.stored) p s enough
  rw [runWithin_eq_some p s _ enough] at answered
  cases answered
  exact within

theorem Refuses.operation {s : Session τ} {l c : Nat}
    (h : Refuses (.limit (.operation l c)) s) : c = s.steps ∧ l < c ∧
      ∃ limit, s.effectiveLimits.maxOperations = some limit ∧ limit.toNat = l := by
  generalize refusal : Abort.limit (.operation l c) = a at h
  cases h with
  | exit => cases refusal
  | @step s₀ s a step =>
    subst refusal
    have after := stepped_eq step
    subst after
    unfold Session.step at step
    dsimp only at step
    split at step
    · next e refused =>
      cases step
      obtain ⟨counted, passed, limited⟩ := Limits.stepError?_operation refused
      exact ⟨counted, counted ▸ passed, limited⟩
    · cases step
  | @write s₀ s p v a written =>
    subst refusal
    unfold Session.write at written
    dsimp only at written
    split at written <;> cases written
  | @push s₀ s id a pushed =>
    subst refusal
    unfold Session.pushScope Limits.depthError? at pushed
    split at pushed
    · next e deep =>
      split at deep <;> cases deep
      cases pushed
    · cases pushed
  | @pop s₀ s merge a popped =>
    subst refusal
    rcases s₀.popScope_cases merge with ⟨env, -, eq⟩ | ⟨-, eq⟩ <;> rw [eq] at popped <;>
      cases popped

end Engine

/-! ## Fresh sessions -/

namespace Program

open Engine

variable {τ : Type}

theorem weight_start (host : Host) (limits : Option Limits) (tracer : τ) (w : Activity → Nat) :
    (Session.start host limits tracer).weight w = 0 := rfl

variable [Tracer τ]

theorem run_steps_le (program : Program) (host : Host) (tracer : τ) :
    (program.run host tracer).2.steps ≤ program.main.nodes := by
  have within := (run_within program.main (.start host (some program.limits) tracer)).2
  rw [weight_start, ← run_snd] at within
  change _ ≤ 0 + 0 + _ at within
  omega

theorem run_ne_operation (program : Program) (host : Host) (tracer : τ)
    (enough : ∀ limit, program.limits.maxOperations = some limit →
      program.main.nodes ≤ limit.toNat) (l c : Nat) :
    (program.run host tracer).1 ≠ .error (.limit (.operation l c)) := by
  intro ended
  rw [run_fst] at ended
  obtain ⟨starts, derivation⟩ := run_yields program.main (.start host (some program.limits) tracer)
  obtain ⟨counted, passed, limit, limited, rfl⟩ :=
    (derivation.refuses _ (conclude_eq_limit ended)).operation
  have same := kept_limits.yields derivation
  rw [effectiveLimits, same] at limited
  have few := enough limit limited
  have steps := program.run_steps_le host tracer
  rw [run_snd, ← counted] at steps
  omega

theorem announced_le_entries (program : Program) (host : Host)
    (starts : List (Start Recording)) (derivation : Yields (.run program.main)
      (.start host (some program.limits) (Recording.empty none)) starts .clear
      (program.main.run (.start host (some program.limits) (Recording.empty none)))) :
    (program.run host (Recording.empty none)).2.tracer.count .faultDispatch +
        (program.run host (Recording.empty none)).2.tracer.count .compensationStart +
        starts.countP Start.finds ≤ program.main.entries := by
  obtain ⟨es, logs, announces⟩ := derivation.announces
  have taken := derivation.takes_le
  rw [countP_takes, announces .compensation _ rfl, announces .handler _ rfl, weight_start] at taken
  have recorded := logs.trans (Recording.foldl_observe es [])
  rw [run_snd, recorded]
  simp only [Start.settles, Recording.count, List.nil_append] at *
  simp at taken
  omega

end Program

open Engine

/-- Every run ends, and performs no activity more often than it stands in the program and the
tables. So a program makes at most as many steps as it has activities, an operation limit of that
size is never passed, and no more handlers start than are installed. -/
theorem run_ends_within_its_nodes :
    (∀ (τ : Type) [Tracer τ] (p : Activity) (s : Session τ),
      (∀ budget, p.nodes + s.stored ≤ budget → runWithin budget p s = some (p.run s)) ∧
      s.steps ≤ (p.run s).2.steps ∧
      (p.run s).2.steps - s.steps + (p.run s).2.stored ≤ p.nodes + s.stored ∧
      ∃ starts, Yields (.run p) s starts .clear (p.run s) ∧
        ∀ kind, starts.countP (Start.performs kind) + (p.run s).2.weight (count kind) ≤
          p.count kind + s.weight (count kind)) ∧
    ∀ (program : Program) (host : Host),
      (∀ (τ : Type) [Tracer τ] (tracer : τ),
        (program.run host tracer).2.steps ≤ program.main.nodes ∧
        ((∀ limit, program.limits.maxOperations = some limit →
            program.main.nodes ≤ limit.toNat) →
          ∀ l c, (program.run host tracer).1 ≠ .error (.limit (.operation l c)))) ∧
      let fresh := Session.start host (some program.limits) (Recording.empty none)
      let recording := (program.run host (Recording.empty none)).2.tracer
      ∃ starts, Yields (.run program.main) fresh starts .clear (program.main.run fresh) ∧
        recording.count .faultDispatch + recording.count .compensationStart +
          starts.countP Start.finds ≤ program.main.entries := by
  constructor
  · intro τ _ p s
    obtain ⟨starts, derivation⟩ := run_yields p s
    obtain ⟨least, most⟩ := run_within p s
    refine ⟨runWithin_eq_some p s, by omega, ?_, starts, derivation, derivation.performs_le⟩
    change _ + (p.run s).2.weight nodes ≤ _ + s.weight nodes
    omega
  · intro program host
    constructor
    · intro τ _ tracer
      exact ⟨program.run_steps_le host tracer, program.run_ne_operation host tracer⟩
    · obtain ⟨starts, derivation⟩ := run_yields program.main
        (.start host (some program.limits) (Recording.empty none))
      exact ⟨starts, derivation, program.announced_le_entries host starts derivation⟩

/-- A shipment that makes as many steps as it has nodes, its handler counted with them. -/
def shipment : Program where
  main := .scope "delivery" (.sequence [
    .install [(.fault "Lost", .print [.literal (.str "search")])],
    .print [.literal (.str "sent")],
    .throw "Lost" none]) true
  limits := ⟨none, some 6, none⟩

theorem shipment_stays_within_its_limit :
    let fresh := Session.start .standard (some shipment.limits) ()
    shipment.limits.maxOperations = some 6 ∧ shipment.main.nodes = 6 ∧
      (shipment.run .standard ()).2.steps = 6 ∧
      (∀ l c, (shipment.run .standard ()).1 ≠ .error (.limit (.operation l c))) ∧
      shipment.main.nodes + fresh.stored ≤ 6 ∧
      runWithin 6 shipment.main fresh = some (shipment.main.run fresh) := by
  intro fresh
  obtain ⟨ends, bounded⟩ := run_ends_within_its_nodes
  have enough : shipment.main.nodes + fresh.stored ≤ 6 := by decide
  have allowed : ∀ limit, shipment.limits.maxOperations = some limit →
      shipment.main.nodes ≤ limit.toNat := by
    rintro limit ⟨⟩
    decide
  have steps : (shipment.run .standard ()).2.steps = 6 := by rfl
  exact ⟨rfl, rfl, steps, ((bounded shipment .standard).1 Unit ()).2 allowed, enough,
    (ends Unit shipment.main fresh).1 6 enough⟩

end Orchestration
