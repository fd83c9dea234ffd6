import Orchestration.Proofs.Guise
import Orchestration.Proofs.Promptness

/-!
# Compensations under a pending request

A scope that runs its own compensation puts the request to terminate out of the way first. A
`compensate` does not. So its compensation is cut short like any other activity: it is done as
without the request only as long as no part of it heeds the request, or until it makes one of its
own, and a sequence or a parallel of killable activities is not done at all.
-/

set_option autoImplicit false

namespace Orchestration

open Engine Session

variable {τ : Type}

/-- The request is pending unless another one is. -/
def Guise.killing (k : Fault) : Guise τ τ := ⟨id, id, fun pending => pending.or (some k), id⟩

namespace Session

theorem guised_of_pending {s : Session τ} {f : Fault} (pending : s.pending = some f) (k : Fault) :
    s.guised (.killing k) = s := by
  cases s
  cases pending
  rfl

theorem guised_of_free {s : Session τ} (free : s.pending = none) (k : Fault) :
    s.guised (.killing k) = s.kill k := by
  unfold guised Guise.killing
  rw [free]
  rfl

theorem takeVisible?_of_found {s : Session τ} {id : String} {c : Activity} {h : Handlers}
    {outer : List Handlers} (found : Handlers.takeInnermost? id s.tables = some (c, h :: outer)) :
    s.takeVisible? id = some (c, { s with handlers := h, enclosing := outer }) := by
  unfold takeVisible?
  rw [found]

end Session

namespace Engine

variable [Tracer τ]

/-- The work acts on a request that is pending: it passes over a killable child, or it takes its
scope for killed where the activity that it settles has returned. -/
def Start.Heeds (x : Start τ) : Prop :=
  match x.work with
  | .children _ (p :: _) => p.killable = true
  | .settle _ _ p => (p.run x.session).1 = .ok () ∧ (p.run x.session).2.pending = none
  | _ => False

/-- None of the works heeds a request before one of them has made one. -/
def Unheeded : List (Start τ) → Prop
  | [] => True
  | x :: rest => ¬ x.Heeds ∧ (x.request? = none → Unheeded rest)

theorem Unheeded.left {starts starts' : List (Start τ)} (unheeded : Unheeded (starts ++ starts')) :
    Unheeded starts := by
  induction starts with
  | nil => trivial
  | cons x rest ih => exact ⟨unheeded.1, fun none => ih (unheeded.2 none)⟩

theorem Unheeded.right {starts starts' : List (Start τ)} (unheeded : Unheeded (starts ++ starts'))
    (none : requests starts = []) : Unheeded starts' := by
  induction starts with
  | nil => exact unheeded
  | cons x rest ih =>
    rw [requests_cons, List.append_eq_nil_iff, Option.toList_eq_nil_iff] at none
    exact ih (unheeded.2 none.1) none.2

/-- The second answer is the first one with the request pending unless another one is. An abort may
have ended both in the very same session, while a request was out of the way. -/
structure Echoes (k : Fault) (r r' : Answer τ Unit) : Prop where
  result : r'.1 = r.1
  session : r'.2 = r.2.guised (.killing k) ∨ (∃ a, r.1 = .error (.abort a)) ∧ r'.2 = r.2

def Shadowed (k : Fault) (w : Work) (s : Session τ) (v : Verdict) (r : Answer τ Unit) : Prop :=
  ∃ starts r', Yields w (s.guised (.killing k)) starts v r' ∧ Echoes k r r'

variable {k : Fault} {w : Work} {s : Session τ} {starts : List (Start τ)} {v : Verdict}
  {r : Answer τ Unit}

theorem shadowed_of_guised
    (h : Yields w (s.guised (.killing k)) starts v (r.1, r.2.guised (.killing k))) :
    Shadowed k w s v r := ⟨starts, _, h, rfl, .inl rfl⟩

theorem Yields.shadowed_of_pending (h : Yields w s starts v r) {f : Fault}
    (pending : s.pending = some f) : Shadowed k w s v r := by
  refine ⟨starts, r, by rwa [guised_of_pending pending], rfl, ?_⟩
  by_cases aborts : ∃ a, r.1 = .error (.abort a)
  · exact .inr ⟨aborts, rfl⟩
  · have killed : s.killed = true := congrArg Option.isSome pending
    have still := (h.carries fun a aborted => aborts ⟨a, aborted⟩).1.mpr (.inl killed)
    obtain ⟨g, pending'⟩ := Option.isSome_iff_exists.mp still
    exact .inl (guised_of_pending pending' k).symm

theorem Shadowed.ended (shadowed : Shadowed k w s v r) (ends : ∀ a, r.1 ≠ .error (.abort a)) :
    ∃ starts, Yields w (s.guised (.killing k)) starts v (r.1, r.2.guised (.killing k)) := by
  obtain ⟨starts, ⟨e, s'⟩, h, result, echo | ⟨⟨a, aborted⟩, -⟩⟩ := shadowed
  · cases result
    cases echo
    exact ⟨starts, h⟩
  · exact absurd aborted (ends a)

theorem Yields.requests_eq_nil (h : Yields w s starts v r) (ends : ∀ a, r.1 ≠ .error (.abort a))
    (free : r.2.pending = none) : requests starts = [] := by
  apply Classical.byContradiction
  intro made
  have killed := (h.carries ends).1.mpr (.inr made)
  rw [Session.killed, free] at killed
  cases killed

theorem Yields.shadowed (h : Yields w s starts v r) (unheeded : Unheeded starts) (k : Fault) :
    Shadowed k w s v r := by
  have follows : (Guise.killing (τ := τ) k).Follows := fun _ _ => rfl
  have heard : (Guise.killing (τ := τ) k).Reclocks := fun _ => ⟨rfl, rfl⟩
  -- Works that act on the request are ruled out, and once one is pending in either session the two
  -- are the same. What is left does not look at it.
  induction h with
  | refused step => exact shadowed_of_guised (.refused (by rw [step_guised _ rfl, step]))
  | stepped step rest ih =>
    obtain ⟨starts', r', rest', echoes⟩ := ih (unheeded.2 rfl)
    exact ⟨_, r', .stepped (by rw [step_guised _ rfl, step]) rest', echoes⟩
  | atomic atom =>
    exact shadowed_of_guised
      (.atomic (atomic?_guised (heard.heard _) (fun _ => rfl) atom rfl trivial))
  | sequence children ih =>
    obtain ⟨starts', r', children', echoes⟩ := ih (unheeded.2 rfl)
    exact ⟨_, r', .sequence children', echoes⟩
  | parallel children ih =>
    obtain ⟨starts', r', children', echoes⟩ := ih (unheeded.2 rfl)
    exact ⟨_, r', .parallel children', echoes⟩
  | found taken undo ih =>
    obtain ⟨starts', r', undo', echoes⟩ := ih (unheeded.2 rfl)
    exact ⟨_, r', .found (by rw [takeVisible?_guised, taken]; rfl) undo', echoes⟩
  | unopened push =>
    exact shadowed_of_guised (.unopened (by rw [pushScope_guised follows rfl, push]))
  | unsettled push settle ih =>
    obtain ⟨starts', ⟨e, s'⟩, settle', same, echo⟩ := ih (unheeded.2 rfl)
    cases same
    exact ⟨_, _, .unsettled (by rw [pushScope_guised follows rfl, push]) settle', rfl, echo⟩
  | settled push settle left ih =>
    obtain ⟨starts', settle'⟩ := (ih (unheeded.2 rfl)).ended nofun
    exact shadowed_of_guised (.settled (by rw [pushScope_guised follows rfl, push]) settle'
      (by rw [leave_guised follows, left]))
  | finished => exact shadowed_of_guised .finished
  | passed skipped rest ih => exact absurd (Bool.and_eq_true_iff.mp skipped).2 unheeded.1
  | @next ends p ps s s₁ starts starts' r stays first rest ih ih' =>
    have relentless : p.killable = false := Bool.not_eq_true _ ▸ unheeded.1
    obtain ⟨earlier, first'⟩ := (ih (unheeded.2 rfl).left).ended nofun
    have others : Shadowed k (.children ends ps) s₁ .clear r := by
      cases pending : s₁.pending with
      | some f => exact rest.shadowed_of_pending pending
      | none => exact ih' ((unheeded.2 rfl).right (first.requests_eq_nil nofun pending))
    obtain ⟨later, r', rest', echoes⟩ := others
    exact ⟨_, r', .next (by rw [relentless, Bool.and_false]) first' rest', echoes⟩
  | stopped stays first ih =>
    have relentless : Activity.killable _ = false := Bool.not_eq_true _ ▸ unheeded.1
    obtain ⟨starts', ⟨e, s'⟩, first', same, echo⟩ := ih (unheeded.2 rfl)
    cases same
    exact ⟨_, _, .stopped (by rw [relentless, Bool.and_false]) first', rfl, echo⟩
  | quiet body none ih =>
    exact absurd ⟨congrArg Prod.fst body.run_eq, by rw [body.run_eq]; exact none⟩ unheeded.1
  | @killed role id p s s₁ starts f body pending none ih =>
    obtain ⟨starts', body'⟩ := (ih (unheeded.2 rfl)).ended nofun
    rw [guised_of_pending pending] at body'
    have kept : (s₁.observe (.killObserved id f.name)).pending = some f := pending
    exact ⟨_, _, .killed body' pending none, rfl, .inl (guised_of_pending kept k).symm⟩
  | @undone role id p c s s₁ s₂ s₃ starts starts' f v body pending taken undo ih ih' =>
    obtain ⟨starts', body'⟩ := (ih (unheeded.2 rfl).left).ended nofun
    rw [guised_of_pending pending] at body'
    have restored : ((s₃.kill f).observe (.compensationEnd id)).pending = some f := rfl
    exact ⟨_, _, .undone body' pending taken undo, rfl, .inl (guised_of_pending restored k).symm⟩
  | interrupted body pending taken undo ih ih' =>
    obtain ⟨starts', body'⟩ := (ih (unheeded.2 rfl).left).ended nofun
    rw [guised_of_pending pending] at body'
    obtain ⟨a, rfl⟩ := undo.settle_error
    exact ⟨_, _, .interrupted body' pending taken undo, rfl, .inr ⟨⟨a, rfl⟩, rfl⟩⟩
  | captured body none ih =>
    obtain ⟨starts', body'⟩ := (ih (unheeded.2 rfl)).ended nofun
    exact shadowed_of_guised (.captured body' (by rw [takeHandler?_guised, none]; rfl))
  | @dispatched role id p h s s₁ s₂ starts starts' f v r body taken handling ih ih' =>
    obtain ⟨earlier, body'⟩ := (ih (unheeded.2 rfl).left).ended nofun
    have same : s₂.pending = s₁.pending := by
      obtain ⟨table, -, rfl⟩ := takeHandler?_eq taken
      rfl
    have handler : Shadowed k (.settle .handler id h)
        ((s₂.delivered f).observe (.faultDispatch s₁.currentScope f.name)) v r := by
      cases pending : s₁.pending with
      | some g => exact handling.shadowed_of_pending (same.trans pending)
      | none => exact ih' ((unheeded.2 rfl).right (body.requests_eq_nil nofun pending))
    obtain ⟨later, r', handling', echoes⟩ := handler
    rw [← observe_guised follows, ← delivered_guised] at handling'
    exact ⟨_, r', .dispatched body' (by rw [takeHandler?_guised, taken]; rfl) handling', echoes⟩
  | aborted body ih =>
    obtain ⟨starts', ⟨e, s'⟩, body', same, echo⟩ := ih (unheeded.2 rfl)
    cases same
    exact ⟨_, _, .aborted body', rfl, echo⟩

theorem Yields.skipped {c : Activity} {ps : List Activity} (h : Yields (.run c) s starts v r)
    (whole : c = .sequence ps ∨ c = .parallel ps) (killable : c.killable = true)
    (killed : s.killed = true) : r.2 = { s with steps := s.steps + 1 } := by
  cases h with
  | refused step => exact stepped_eq step
  | stepped step rest =>
    rw [← stepped_eq step]
    have still : Session.killed _ = true := (congrArg Session.killed (stepped_eq step)).trans killed
    rcases whole with rfl | rfl
    · cases rest with
      | atomic atom => cases atom
      | sequence children => rw [(children.children_of_killed killable still).1]; rfl
    · cases rest with
      | atomic atom => cases atom
      | parallel children => rw [(children.children_of_killed killable still).1]; rfl

theorem Yields.forgone {id : String} {s₁ : Session τ} {c : Activity} {ps : List Activity}
    (h : Yields (.run (.compensate id)) s starts v r) (visible : s.takeVisible? id = some (c, s₁))
    (whole : c = .sequence ps ∨ c = .parallel ps) (killable : c.killable = true)
    (killed : s.killed = true) :
    r.2.output = s.output ∧ r.2.calls = s.calls ∧ r.2.env = s.env := by
  obtain ⟨table, outer, found, -⟩ := takeVisible?_eq visible
  cases h with
  | refused step =>
    rw [stepped_eq step]
    exact ⟨rfl, rfl, rfl⟩
  | stepped step rest =>
    cases stepped_eq step
    have taken : Session.takeVisible? { s with steps := s.steps + 1 } id = some (c, _) :=
      takeVisible?_of_found found
    cases rest with
    | atomic atom =>
      rw [atomic?, taken] at atom
      cases atom
    | found taken' undo =>
      cases taken.symm.trans taken'
      rw [undo.skipped whole killable killed]
      exact ⟨rfl, rfl, rfl⟩

end Engine

/-- With a request pending, `compensate` runs a compensation to the result, the output and the
variables that it comes to without, if no part of the compensation heeds a request before one of
them has made one. But a compensation that is a sequence or a parallel of killable activities is
taken and not done. -/
theorem compensate_endures_unheeded_request (τ : Type) [Tracer τ] (id : String) (s : Session τ)
    (k : Fault) :
    let plain := (Activity.compensate id).run s
    let killed := (Activity.compensate id).run (s.kill k)
    (∀ starts, s.pending = none → Yields (.run (.compensate id)) s starts .clear plain →
      Unheeded starts → killed.1 = plain.1 ∧ killed.2.output = plain.2.output ∧
        killed.2.calls = plain.2.calls ∧ killed.2.env = plain.2.env ∧
        killed.2.tracer = plain.2.tracer) ∧
    ∀ c s₁ ps, s.takeVisible? id = some (c, s₁) → c = .sequence ps ∨ c = .parallel ps →
      c.killable = true →
        killed.2.output = s.output ∧ killed.2.calls = s.calls ∧ killed.2.env = s.env := by
  intro plain killed
  constructor
  · intro starts free derivation unheeded
    obtain ⟨starts', r', derivation', same, echo⟩ := derivation.shadowed unheeded k
    rw [guised_of_free free] at derivation'
    have ran : killed = r' := derivation'.run_eq
    rw [ran]
    rcases echo with echo | ⟨-, echo⟩ <;> rw [echo] <;> exact ⟨same, rfl, rfl, rfl, rfl⟩
  · intro c s₁ ps visible whole killable
    obtain ⟨starts, derivation⟩ := run_yields (.compensate id) (s.kill k)
    have visible' : (s.kill k).takeVisible? id = some (c, s₁.kill k) := by
      obtain ⟨table, outer, found, rfl⟩ := takeVisible?_eq visible
      exact takeVisible?_of_found found
    exact derivation.forgone visible' whole killable rfl

/-- Three finished scopes have left their compensations. That of the card prints a line, and that of
the order has the hold released, which prints another one. -/
def booked : Session Unit :=
  let line (text : String) := Activity.print [.literal (.str text)]
  { Session.start .standard none () with
    handlers := { Handlers.empty with
      compensations := [("hold", line "released"), ("card", .sequence [line "refunded"]),
        ("order", .sequence [.compensate "hold"])] } }

theorem order_unheeding : ∃ starts, Yields (.run (.compensate "order")) booked starts .clear
    ((Activity.compensate "order").run booked) ∧ Unheeded starts := by
  refine ⟨_, .stepped rfl (.found rfl (.stepped rfl (.sequence (.next rfl (.stepped rfl
    (.found rfl (.stepped rfl (.atomic rfl)))) .finished)))), ?_⟩
  -- The only child of a work is a `compensate`, which is not killable, and no scope is settled.
  simp [Unheeded, Start.Heeds, Start.request?, Activity.killable]

theorem booked_compensations_under_request :
    let stop : Fault := ⟨"Stop", .void⟩
    let order := (Activity.compensate "order").run (booked.kill stop)
    let card := (Activity.compensate "card").run (booked.kill stop)
    booked.pending = none ∧ order.1 = .ok () ∧ order.2.output = "released\n" ∧
      (∃ c s₁ ps, booked.takeVisible? "card" = some (c, s₁) ∧ c = .sequence ps ∧
        c.killable = true) ∧ card.2.output = "" := by
  intro stop order card
  obtain ⟨starts, derivation, unheeded⟩ := order_unheeding
  have alike := (compensate_endures_unheeded_request Unit "order" booked stop).1 starts rfl
    derivation unheeded
  have skipped := (compensate_endures_unheeded_request Unit "card" booked stop).2 _ _ _ rfl
    (.inl rfl) rfl
  exact ⟨rfl, alike.1, alike.2.1, ⟨_, _, _, rfl, rfl, rfl⟩, skipped.1⟩

/-- What is done for the card depends on a request that is pending already. -/
theorem pending_request_interrupts_compensation :
    ¬ ∀ (id : String) (s s₁ : Session Unit) (c : Activity) (k : Fault), s.pending = none →
      s.takeVisible? id = some (c, s₁) →
      let plain := (Activity.compensate id).run s
      let killed := (Activity.compensate id).run (s.kill k)
      killed.2.output = plain.2.output ∧ killed.1 = plain.1 ∧ killed.2.env = plain.2.env := by
  intro claim
  obtain ⟨same, -⟩ := claim "card" booked _ _ ⟨"Stop", .void⟩ rfl rfl
  have printed : ((Activity.compensate "card").run booked).2.output = "refunded\n" := by rfl
  have silent : ((Activity.compensate "card").run (booked.kill ⟨"Stop", .void⟩)).2.output = "" := by
    rfl
  rw [printed, silent] at same
  exact absurd same (by decide)

end Orchestration
