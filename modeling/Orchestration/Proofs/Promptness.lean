import Orchestration.Proofs.Pending
import Orchestration.Proofs.Potential

/-!
# Termination is prompt without `compensate`

Every activity that contains no `compensate` is killable. So where none occurs, neither in a
program nor in what it installs, a pending request ends the sequences and passes over the
branches around it, and activities start only where nothing is pending: before a kill, and
after it in the compensations that run with the request out of the way. A fault comes from an
activity that has started, so no fault meets a pending request.
-/

set_option autoImplicit false

namespace Orchestration

open Activity

namespace Engine

def compensates : Activity → Bool
  | .compensate _ => true
  | _ => false

mutual

theorem killable_of_count : (p : Activity) → p.count compensates = 0 → p.killable = true
  | .sequence ps, free => by
    rw [count, total] at free
    rw [killable]
    exact allKillable_of_count ps (by omega)
  | .parallel ps, free => by
    rw [count, total] at free
    rw [killable]
    exact allKillable_of_count ps (by omega)
  | .scope id body autoPop, free => by
    rw [count, total] at free
    rw [killable]
    exact killable_of_count body (by rw [count]; omega)
  | .compensate id, free => by simp [count, total, compensates] at free
  | .nil, _ => rfl
  | .assign .., _ => rfl
  | .print .., _ => rfl
  | .throw .., _ => rfl
  | .kill .., _ => rfl
  | .install .., _ => rfl
  | .exit, _ => rfl

theorem allKillable_of_count : (ps : List Activity) →
    totalOf (fun q => (compensates q).toNat) ps = 0 → allKillable ps = true
  | [], _ => rfl
  | p :: ps, free => by
    rw [totalOf] at free
    rw [allKillable, killable_of_count p (by rw [count]; omega), allKillable_of_count ps (by omega)]
    rfl

end

variable {τ : Type}

def Free (starts : List (Start τ)) : Prop :=
  ∀ x ∈ starts, x.work.count compensates + x.session.weight (count compensates) = 0

theorem Free.of_cons {x : Start τ} {starts : List (Start τ)} (free : Free (x :: starts)) :
    Free starts := fun y among => free y (List.mem_cons_of_mem x among)

theorem Free.left {starts starts' : List (Start τ)} (free : Free (starts ++ starts')) :
    Free starts := fun y among => free y (List.mem_append_left starts' among)

theorem Free.right {starts starts' : List (Start τ)} (free : Free (starts ++ starts')) :
    Free starts' := fun y among => free y (List.mem_append_right starts among)

theorem Free.work {w : Work} {s : Session τ} {starts : List (Start τ)}
    (free : Free (⟨w, s⟩ :: starts)) : w.count compensates = 0 := by
  have own := free ⟨w, s⟩ List.mem_cons_self
  exact (Nat.add_eq_zero_iff.mp own).1

def Work.passes : Work → Prop
  | .children .. => True
  | _ => False

def Work.settles : Work → Prop
  | .settle .. => True
  | _ => False

def Idle (starts : List (Start τ)) : Prop := ∀ x ∈ starts, x.work.passes

theorem idle_nil : Idle ([] : List (Start τ)) := fun _ among => absurd among List.not_mem_nil

theorem Idle.cons {x : Start τ} {starts : List (Start τ)} (idle : Idle starts)
    (passes : x.work.passes) : Idle (x :: starts) := by
  intro y among
  rcases List.mem_cons.mp among with rfl | inner
  · exact passes
  · exact idle y inner

theorem fault_of_atomic {p : Activity} {s s' : Session τ} {f : Fault}
    (atom : atomic? p s = some (.error (.fault f), s')) : s'.pending = s.pending := by
  obtain ⟨env, handlers, pending, calls, output, eq, -, -, requested⟩ := atomic_snd atom
  cases p with
  | kill name payload => cases atom
  | _ =>
    change s' = _ at eq
    rw [eq]
    exact requested

def Undisturbed (starts : List (Start τ)) : Prop :=
  ∀ x ∈ starts, ¬ x.work.passes → x.session.pending = none

theorem undisturbed_nil : Undisturbed ([] : List (Start τ)) :=
  fun _ among => absurd among List.not_mem_nil

theorem Undisturbed.cons {w : Work} {s : Session τ} {starts : List (Start τ)}
    (entered : Undisturbed starts) (quiet : s.pending = none) :
    Undisturbed (⟨w, s⟩ :: starts) := by
  intro x among other
  rcases List.mem_cons.mp among with rfl | inner
  · exact quiet
  · exact entered x inner other

theorem Undisturbed.append {starts starts' : List (Start τ)} (first : Undisturbed starts)
    (second : Undisturbed starts') : Undisturbed (starts ++ starts') := by
  intro x among
  rcases List.mem_append.mp among with left | right
  · exact first x left
  · exact second x right

theorem Idle.undisturbed {starts : List (Start τ)} (idle : Idle starts) : Undisturbed starts :=
  fun x among other => absurd (idle x among) other

def Unopposed (r : Answer τ Unit) : Prop := ∀ f, r.1 = .error (.fault f) → r.2.pending = none

theorem unopposed_ok (s : Session τ) : Unopposed s.done := by
  intro f raised
  cases raised

/-- No request is pending where an activity starts, where the work raises a fault, and where a scope
is settled whose frame will be merged. -/
structure Prompt (w : Work) (starts : List (Start τ)) (v : Verdict) (r : Answer τ Unit) : Prop where
  entered : Undisturbed starts
  raised : Unopposed r
  merged : w.settles → r.1 = .ok () → v.merge = true → r.2.pending = none

theorem prompt_other {w : Work} {s : Session τ} {starts : List (Start τ)} {v : Verdict}
    {r : Answer τ Unit} (entered : Undisturbed starts) (quiet : s.pending = none)
    (raised : Unopposed r) (other : ¬ w.settles) :
    Prompt w (⟨w, s⟩ :: starts) v r where
  entered := entered.cons quiet
  raised := raised
  merged settles := absurd settles other

theorem prompt_settle {w : Work} {s : Session τ} {starts : List (Start τ)} {v : Verdict}
    {r : Answer τ Unit} (entered : Undisturbed starts) (quiet : s.pending = none)
    (raised : Unopposed r)
    (merged : r.1 = .ok () → v.merge = true → r.2.pending = none) :
    Prompt w (⟨w, s⟩ :: starts) v r where
  entered := entered.cons quiet
  raised := raised
  merged _ := merged

variable [Tracer τ]

theorem Yields.free {w : Work} {s : Session τ} {starts : List (Start τ)} {v : Verdict}
    {r : Answer τ Unit} (h : Yields w s starts v r)
    (free : w.count compensates + s.weight (count compensates) = 0) : Free starts := by
  intro x started
  have few := h.count_le compensates x started
  omega

theorem Yields.children_of_killed {ends : Bool} {ps : List Activity} {s : Session τ}
    {starts : List (Start τ)} {v : Verdict} {r : Answer τ Unit}
    (h : Yields (.children ends ps) s starts v r) (killable : allKillable ps = true)
    (killed : s.killed = true) : r = s.done ∧ Idle starts := by
  generalize work : Work.children ends ps = w at h
  induction h generalizing ps with
  | finished => exact ⟨rfl, idle_nil.cons trivial⟩
  | @passed ends' p qs s starts r passes rest ih =>
    cases work
    rw [allKillable, Bool.and_eq_true] at killable
    have others : allKillable (if ends then [] else qs) = true := by
      cases ends with
      | true => rfl
      | false => exact killable.2
    obtain ⟨returned, idle⟩ := ih others killed rfl
    exact ⟨returned, idle.cons trivial⟩
  | next stays first rest ih ih' =>
    cases work
    rw [allKillable, Bool.and_eq_true] at killable
    rw [killed, killable.1] at stays
    cases stays
  | stopped stays first ih =>
    cases work
    rw [allKillable, Bool.and_eq_true] at killable
    rw [killed, killable.1] at stays
    cases stays
  | _ => cases work

theorem leave_eq_fault {id : String} {autoPop : Bool} {v : Verdict} {s s' : Session τ} {f : Fault}
    (left : leave id autoPop v s = (.error (.fault f), s')) :
    v.merge = true ∧ v.captured = some f := by
  have resolved (s₁ : Session τ) (eq : resolve id v s₁ = (.error (.fault f), s')) :
      v.merge = true ∧ v.captured = some f := by
    unfold resolve at eq
    split at eq
    · next g captured =>
      split at eq
      · next merged =>
        cases eq
        exact ⟨merged, captured⟩
      · cases eq
    · cases eq
  unfold leave at left
  split at left
  · rcases s.popScope_cases v.merge with ⟨env, -, popped⟩ | ⟨-, popped⟩ <;> rw [popped] at left
    · exact resolved _ left
    · cases left
  · exact resolved _ left

/-- Where nothing is pending at the start of a work, and no `compensate` occurs, activities start
only where nothing is pending, and so no fault meets a request. -/
theorem Yields.prompt {w : Work} {s : Session τ} {starts : List (Start τ)} {v : Verdict}
    {r : Answer τ Unit} (h : Yields w s starts v r) (free : Free starts)
    (quiet : s.pending = none) : Prompt w starts v r := by
  induction h with
  | @refused p s s₁ stop step =>
    have same : s₁.pending = none := by rw [Session.stepped_eq step]; exact quiet
    exact prompt_other undisturbed_nil quiet (fun _ _ => same) not_false
  | @stepped p s s₁ starts r step rest ih =>
    have same : s₁.pending = none := by rw [Session.stepped_eq step]; exact quiet
    have inner := ih free.of_cons same
    exact prompt_other inner.entered quiet inner.raised not_false
  | @atomic p s r atom =>
    refine prompt_other undisturbed_nil quiet ?_ not_false
    intro f faulted
    obtain ⟨e, s'⟩ := r
    cases faulted
    exact (fault_of_atomic atom).trans quiet
  | sequence children ih =>
    have inner := ih free.of_cons quiet
    exact prompt_other inner.entered quiet inner.raised not_false
  | parallel children ih =>
    have inner := ih free.of_cons quiet
    exact prompt_other inner.entered quiet inner.raised not_false
  | found taken undo ih =>
    have own := free.work
    simp [Work.count, count, total, compensates] at own
  | unopened push =>
    have same := (pending_pushScope push).trans quiet
    exact prompt_other undisturbed_nil quiet (fun _ _ => same) not_false
  | unsettled push settle ih =>
    have inner := ih free.of_cons ((pending_pushScope push).trans quiet)
    exact prompt_other inner.entered quiet inner.raised not_false
  | @settled id body autoPop s s₁ s₂ starts v r push settle left ih =>
    have inner := ih free.of_cons ((pending_pushScope push).trans quiet)
    refine prompt_other inner.entered quiet ?_ not_false
    intro f faulted
    rw [pending_leave left]
    obtain ⟨e, s'⟩ := r
    cases faulted
    exact inner.merged trivial rfl (leave_eq_fault left).1
  | finished => exact prompt_other undisturbed_nil quiet (unopposed_ok _) not_false
  | passed passes rest ih =>
    have inner := ih free.of_cons quiet
    exact prompt_other inner.entered quiet inner.raised not_false
  | @next ends p ps s s₁ starts starts' r stays first rest ih ih' =>
    have inner := ih free.of_cons.left quiet
    -- Either nothing is pending for the other children, or they are all passed over.
    cases pending : s₁.pending with
    | none =>
      have others := ih' free.of_cons.right pending
      exact prompt_other (inner.entered.append others.entered) quiet others.raised not_false
    | some k =>
      have own := free.work
      rw [Work.count, totalOf] at own
      obtain ⟨returned, idle⟩ := rest.children_of_killed (allKillable_of_count ps (by omega))
        (congrArg Option.isSome pending)
      subst returned
      exact prompt_other (inner.entered.append idle.undisturbed) quiet (unopposed_ok _) not_false
  | stopped stays first ih =>
    have inner := ih free.of_cons quiet
    exact prompt_other inner.entered quiet inner.raised not_false
  | quiet body none ih =>
    have inner := ih free.of_cons quiet
    exact prompt_settle inner.entered quiet (unopposed_ok _) fun _ _ => none
  | killed body pending none ih =>
    have inner := ih free.of_cons quiet
    exact prompt_settle inner.entered quiet (unopposed_ok _) fun _ merged => by cases merged
  | undone body pending taken undo ih ih' =>
    have inner := ih free.of_cons.left quiet
    have undoing := ih' free.of_cons.right rfl
    exact prompt_settle (inner.entered.append undoing.entered) quiet (unopposed_ok _)
      fun _ merged => by cases merged
  | interrupted body pending taken undo ih ih' =>
    have inner := ih free.of_cons.left quiet
    have undoing := ih' free.of_cons.right rfl
    exact prompt_settle (inner.entered.append undoing.entered) quiet undoing.raised
      fun ended => by cases ended
  | captured body none ih =>
    have inner := ih free.of_cons quiet
    exact prompt_settle inner.entered quiet (unopposed_ok _) fun _ _ => inner.raised _ rfl
  | @dispatched role id p h s s₁ s₂ starts starts' f v r body taken handling ih ih' =>
    have inner := ih free.of_cons.left quiet
    obtain ⟨table, -, eq⟩ := Session.takeHandler?_eq taken
    have same : s₂.pending = none := by rw [eq]; exact inner.raised f rfl
    have handled := ih' free.of_cons.right same
    exact prompt_settle (inner.entered.append handled.entered) quiet handled.raised
      (handled.merged trivial)
  | aborted body ih =>
    have inner := ih free.of_cons quiet
    exact prompt_settle inner.entered quiet inner.raised fun ended => by cases ended

/-! ## After a kill -/

/-- No activity of the list starts but in compensations, each with all its works in the list, that
scopes have begun with nothing pending. -/
inductive Sheltered : List (Start τ) → Prop
  | nil : Sheltered []
  | cons {x : Start τ} {starts : List (Start τ)} : (∀ p, x.work ≠ .run p) → Sheltered starts →
      Sheltered (x :: starts)
  | undoing {id : String} {c : Activity} {s : Session τ} {block starts : List (Start τ)}
      {v : Verdict} {r : Answer τ Unit} : s.pending = none →
      Yields (.settle .compensation id c) s block v r → Sheltered starts →
      Sheltered (block ++ starts)

theorem Sheltered.append {starts starts' : List (Start τ)} (first : Sheltered starts)
    (second : Sheltered starts') : Sheltered (starts ++ starts') := by
  induction first with
  | nil => exact second
  | cons other rest ih => exact .cons other ih
  | undoing quiet undo rest ih =>
    rw [List.append_assoc]
    exact .undoing quiet undo ih

theorem Idle.sheltered {starts : List (Start τ)} (idle : Idle starts) : Sheltered starts := by
  induction starts with
  | nil => exact .nil
  | cons x starts ih =>
    have passes := idle x List.mem_cons_self
    refine .cons ?_ (ih fun y among => idle y (List.mem_cons_of_mem x among))
    intro p work
    rw [work] at passes
    exact passes

theorem sheltered_block {id : String} {c : Activity} {s : Session τ} {block : List (Start τ)}
    {v : Verdict} {r : Answer τ Unit} (quiet : s.pending = none)
    (undo : Yields (.settle .compensation id c) s block v r) : Sheltered block := by
  have alone := Sheltered.undoing quiet undo .nil
  rwa [List.append_nil] at alone

def Halts (starts : List (Start τ)) : Prop :=
  ∀ x after, x :: after <:+ starts → x.request? ≠ none → Sheltered after

theorem Idle.halts {starts : List (Start τ)} (idle : Idle starts) : Halts starts := by
  intro x after suffix kills
  have others : Idle after := fun y among => idle y (suffix.subset (List.mem_cons_of_mem x among))
  exact others.sheltered

theorem Halts.cons {x : Start τ} {starts : List (Start τ)} (rest : Halts starts)
    (other : x.request? = none) : Halts (x :: starts) := by
  intro y after suffix kills
  rcases List.suffix_cons_iff.mp suffix with whole | inner
  · cases whole
    exact absurd other kills
  · exact rest y after inner kills

theorem halts_singleton (x : Start τ) : Halts [x] := by
  intro y after suffix kills
  rcases List.suffix_cons_iff.mp suffix with whole | inner
  · cases whole
    exact .nil
  · cases List.suffix_nil.mp inner

theorem Halts.append {starts starts' : List (Start τ)} (first : Halts starts)
    (second : Halts starts') (follow : requests starts ≠ [] → Sheltered starts') :
    Halts (starts ++ starts') := by
  induction starts with
  | nil => exact second
  | cons x starts ih =>
    have rest : Halts starts := fun y after suffix =>
      first y after (suffix.trans (List.suffix_cons x starts))
    intro y after suffix kills
    rcases List.suffix_cons_iff.mp suffix with whole | inner
    · obtain ⟨rfl, rfl⟩ := List.cons_eq_cons.mp whole
      have here := first y starts List.suffix_rfl kills
      refine here.append (follow ?_)
      rw [requests_cons]
      cases request : y.request? with
      | none => exact absurd request kills
      | some k => simp
    · refine ih rest ?_ y after inner kills
      intro made
      apply follow
      rw [requests_cons]
      simp [made]

theorem Yields.halts {w : Work} {s : Session τ} {starts : List (Start τ)} {v : Verdict}
    {r : Answer τ Unit} (h : Yields w s starts v r) (free : Free starts)
    (quiet : s.pending = none) : Halts starts := by
  induction h with
  | refused step => exact halts_singleton _
  | @stepped p s s₁ starts r step rest ih =>
    have same : s₁.pending = none := by rw [Session.stepped_eq step]; exact quiet
    exact (ih free.of_cons same).cons rfl
  | atomic atom => exact halts_singleton _
  | sequence children ih => exact (ih free.of_cons quiet).cons rfl
  | parallel children ih => exact (ih free.of_cons quiet).cons rfl
  | found taken undo ih =>
    have own := free.work
    simp [Work.count, count, total, compensates] at own
  | unopened push => exact halts_singleton _
  | unsettled push settle ih =>
    exact (ih free.of_cons ((pending_pushScope push).trans quiet)).cons rfl
  | settled push settle left ih =>
    exact (ih free.of_cons ((pending_pushScope push).trans quiet)).cons rfl
  | finished => exact halts_singleton _
  | passed passes rest ih => exact (ih free.of_cons quiet).cons rfl
  | @next ends p ps s s₁ starts starts' r stays first rest ih ih' =>
    have own := free.work
    rw [Work.count, totalOf] at own
    have killable := allKillable_of_count ps (by omega)
    have before := ih free.of_cons.left quiet
    cases pending : s₁.pending with
    | none =>
      have others := ih' free.of_cons.right pending
      refine (before.append others ?_).cons rfl
      intro made
      have still := (first.carries ok_ne_abort).1.mpr (.inr made)
      rw [Session.killed, pending] at still
      cases still
    | some k =>
      obtain ⟨-, idle⟩ := rest.children_of_killed killable (congrArg Option.isSome pending)
      exact (before.append idle.halts fun _ => idle.sheltered).cons rfl
  | stopped stays first ih => exact (ih free.of_cons quiet).cons rfl
  | quiet body none ih => exact (ih free.of_cons quiet).cons rfl
  | killed body pending none ih => exact (ih free.of_cons quiet).cons rfl
  | undone body pending taken undo ih ih' =>
    have before := ih free.of_cons.left quiet
    have undoing := ih' free.of_cons.right rfl
    exact (before.append undoing fun _ => sheltered_block rfl undo).cons rfl
  | interrupted body pending taken undo ih ih' =>
    have before := ih free.of_cons.left quiet
    have undoing := ih' free.of_cons.right rfl
    exact (before.append undoing fun _ => sheltered_block rfl undo).cons rfl
  | captured body none ih => exact (ih free.of_cons quiet).cons rfl
  | @dispatched role id p h s s₁ s₂ starts starts' f v r body taken handling ih ih' =>
    have before := ih free.of_cons.left quiet
    have raised := (body.prompt free.of_cons.left quiet).raised f rfl
    obtain ⟨table, -, eq⟩ := Session.takeHandler?_eq taken
    have same : s₂.pending = none := by rw [eq]; exact raised
    refine (before.append (ih' free.of_cons.right same) ?_).cons rfl
    -- A work that has made a request and does not abort ends with one pending.
    intro made
    have still := (body.carries (fault_ne_abort f)).1.mpr (.inr made)
    rw [Session.killed, raised] at still
    cases still
  | aborted body ih => exact (ih free.of_cons quiet).cons rfl

end Engine

open Engine

/-- In a run without `compensate` every activity starts with nothing pending, none raises a fault
while a request is pending, and after a kill activities start only in compensations that scopes
have begun with the request out of the way. -/
theorem termination_is_prompt (τ : Type) [Tracer τ] (main : Activity) (host : Host)
    (limits : Option Limits) (tracer : τ) (free : main.count compensates = 0) :
    let fresh := Session.start host limits tracer
    ∃ starts, Yields (.run main) fresh starts .clear (main.run fresh) ∧
      (∀ x ∈ starts, ∀ p, x.work = .run p → x.session.pending = none ∧
        ∀ f, (p.run x.session).1 = .error (.fault f) → (p.run x.session).2.pending = none) ∧
      ∀ x after, x :: after <:+ starts → x.request? ≠ none → Sheltered after := by
  intro fresh
  obtain ⟨starts, derivation⟩ := run_yields main fresh
  have everywhere : Free starts := derivation.free (by rw [Work.count, free]; rfl)
  refine ⟨starts, derivation, ?_, derivation.halts everywhere rfl⟩
  intro x started p work
  have quiet := (derivation.prompt everywhere rfl).entered x started (by rw [work]; exact id)
  obtain ⟨parts, own⟩ := run_yields p x.session
  have here := everywhere x started
  rw [work] at here
  exact ⟨quiet, (own.prompt (own.free here) quiet).raised⟩

def job : ScopeDefinition where
  id := "job"
  body := .sequence [
    .install [(.this, .sequence [.install [(.this, .print [])], .kill "Again" none])],
    .kill "Stop" none]
  autoPop := true

def shutdown : Activity := .sequence [job.activity, .print []]

theorem shutdown_is_prompt :
    shutdown.count compensates = 0 ∧
      let fresh := Session.start .standard none ()
      ∃ starts, Yields (.run shutdown) fresh starts .clear (shutdown.run fresh) ∧
        (∀ x ∈ starts, ∀ p, x.work = .run p → x.session.pending = none ∧
          ∀ f, (p.run x.session).1 = .error (.fault f) → (p.run x.session).2.pending = none) ∧
        ∀ x after, x :: after <:+ starts → x.request? ≠ none → Sheltered after := by
  have free : shutdown.count compensates = 0 := by decide
  exact ⟨free, termination_is_prompt Unit shutdown .standard none () free⟩

end Orchestration
