import Orchestration.Proofs.Events
import Orchestration.Proofs.Frames

/-!
# Relations along the events of a run

Much of what is said of the frames of a session is said of two sessions and the events between them.
A relation of this kind that the opening and the closing of scopes keep, and that nothing else
touches, holds from the start of a work to its end and to the start of each of its parts: the
induction on derivations is done here once.
-/

set_option autoImplicit false

namespace Orchestration

open Engine Session

/-! ## Events of frames -/

def Event.opens : Event → Bool
  | .scopePush .. => true
  | _ => false

def Event.closes : Event → Bool
  | .scopePop .. => true
  | _ => false

def pushes (es : List Event) : Nat := es.countP Event.opens

def pops (es : List Event) : Nat := es.countP Event.closes

theorem pushes_append (es es' : List Event) : pushes (es ++ es') = pushes es + pushes es' :=
  List.countP_append

theorem pops_append (es es' : List Event) : pops (es ++ es') = pops es + pops es' :=
  List.countP_append

theorem pushes_push (id : String) (depth : Nat) (es : List Event) :
    pushes (.scopePush id depth :: es) = pushes es + 1 := List.countP_cons_of_pos rfl

theorem pops_push (id : String) (depth : Nat) (es : List Event) :
    pops (.scopePush id depth :: es) = pops es := List.countP_cons_of_neg nofun

/-! ## Relations along the events -/

variable {τ : Type}

/-- The events lead from the one session to the other, and the first ones of them to each of the
works. -/
structure Tracked (R : Session τ → List Event → Session τ → Prop) (s : Session τ)
    (es : List Event) (starts : List (Start τ)) (s' : Session τ) : Prop where
  whole : R s es s'
  starts : ∀ x ∈ starts, ∃ before, before <+: es ∧ R s before x.session

variable {R : Session τ → List Event → Session τ → Prop} {s s₁ s' : Session τ}
  {es es' : List Event} {starts starts' : List (Start τ)}

theorem tracked_nil (whole : R s es s') : Tracked R s es [] s' :=
  ⟨whole, fun _ among => absurd among List.not_mem_nil⟩

variable [Tracer τ]

/-- A relation between sessions by the events between them, which is composed along the events. It
holds where no frame is opened or closed, from a scope to its frame, and over a scope that closes a
frame at its end if it holds over what is inside. -/
structure Tracks (R : Session τ → List Event → Session τ → Prop) : Prop where
  first : ∀ {s s' : Session τ} {es : List Event}, R s es s' → R s [] s
  last : ∀ {s s' : Session τ} {es : List Event}, R s es s' → R s' [] s'
  append : ∀ {s s₁ s' : Session τ} {es es' : List Event},
    R s es s₁ → R s₁ es' s' → R s (es ++ es') s'
  level : ∀ {s s' : Session τ} {es : List Event}, R s [] s → s'.limits = s.limits →
    s.Logs es s' → s.Stands 0 s' → pushes es = 0 → pops es = 0 → R s es s'
  opened : ∀ {s s₁ : Session τ} {id : String}, s.pushScope id = (.ok (), s₁) →
    R s [.scopePush id (s.depth + 1)] s₁
  closed : ∀ {s s₁ s₂ : Session τ} {id : String} {es : List Event} {merge : Bool}
    {env : Environment}, s.pushScope id = (.ok (), s₁) → R s₁ es s₂ →
      s₂.env.pop? merge = some env →
      R s (.scopePush id (s.depth + 1) :: es ++ [.scopePop s₂.currentScope merge env.depth])
        (s₂.closed merge env)

namespace Tracks

variable (tracks : Tracks R)
include tracks

theorem cons (parts : Tracked R s es starts s') (w : Work) :
    Tracked R s es (⟨w, s⟩ :: starts) s' where
  whole := parts.whole
  starts := List.forall_mem_cons.mpr
    ⟨⟨[], List.nil_prefix, tracks.first parts.whole⟩, parts.starts⟩

theorem both (first : Tracked R s es starts s₁) (second : Tracked R s₁ es' starts' s') :
    Tracked R s (es ++ es') (starts ++ starts') s' where
  whole := tracks.append first.whole second.whole
  starts := by
    refine List.forall_mem_append.mpr ⟨?_, ?_⟩
    · intro x among
      obtain ⟨before, start, inside⟩ := first.starts x among
      exact ⟨before, start.trans (List.prefix_append es es'), inside⟩
    · intro x among
      obtain ⟨before, start, inside⟩ := second.starts x among
      exact ⟨es ++ before, (List.prefix_append_right_inj es).mpr start,
        tracks.append first.whole inside⟩

theorem after (second : Tracked R s₁ es' starts s') (first : R s es s₁) :
    Tracked R s (es ++ es') starts s' := tracks.both (tracked_nil first) second

theorem andThen (first : Tracked R s es starts s₁) (second : R s₁ es' s') :
    Tracked R s (es ++ es') starts s' := by
  have both := tracks.both first (tracked_nil second)
  rwa [List.append_nil] at both

theorem step {e : Except Stop Unit} (begins : R s [] s) (step : s.step = (e, s₁)) : R s [] s₁ := by
  have logs := logs_step step
  cases stepped_eq step
  exact tracks.level begins rfl logs (stands_of_eq rfl rfl rfl) rfl rfl

theorem observe (begins : R s [] s) {e : Event} (opens : pushes [e] = 0) (closes : pops [e] = 0) :
    R s [e] (s.observe e) :=
  tracks.level begins rfl (s.logs_observe e) (stands_observe ..) opens closes

theorem resolve (begins : R s [] s) (id : String) (v : Verdict) :
    ∃ es, R s es (Engine.resolve id v s).2 := by
  unfold Engine.resolve
  split
  · split
    · exact ⟨_, tracks.observe begins rfl rfl⟩
    · exact ⟨[], begins⟩
  · exact ⟨[], begins⟩

theorem leave {s₂ : Session τ} {id : String} (push : s.pushScope id = (.ok (), s₁))
    (inner : Tracked R s₁ es starts s₂) (autoPop : Bool) (v : Verdict) :
    ∃ es', Tracked R s es' starts (Engine.leave id autoPop v s₂).2 := by
  have within := tracks.after inner (tracks.opened push)
  have ends := tracks.last inner.whole
  cases autoPop with
  | true =>
    rcases s₂.popScope_cases v.merge with ⟨env, popped, -⟩ | ⟨-, refused⟩
    · have closed := tracks.closed push inner.whole popped
      have parts : Tracked R s _ starts (s₂.closed v.merge env) := ⟨closed, by
        intro x among
        obtain ⟨before, start, inside⟩ := within.starts x among
        exact ⟨before, start.trans (List.prefix_append ..), inside⟩⟩
      obtain ⟨es', resolved⟩ := tracks.resolve (tracks.last closed) id v
      rw [leave_of_popped popped]
      exact ⟨_, tracks.andThen parts resolved⟩
    · unfold Engine.leave
      rw [if_pos rfl, refused]
      exact ⟨_, within⟩
  | false =>
    obtain ⟨es', resolved⟩ := tracks.resolve ends id v
    exact ⟨_, tracks.andThen within resolved⟩

/-- Every work is tracked, whatever it comes to, and so is every part of it. -/
theorem yields {w : Work} {v : Verdict} {r : Answer τ Unit} (h : Yields w s starts v r)
    (begins : R s [] s) : ∃ es, Tracked R s es starts r.2 := by
  induction h with
  | refused step => exact ⟨_, tracks.cons (tracked_nil (tracks.step begins step)) _⟩
  | stepped step rest ih =>
    have stepped := tracks.step begins step
    obtain ⟨es, parts⟩ := ih (tracks.last stepped)
    exact ⟨_, tracks.cons (tracks.after parts stepped) _⟩
  | atomic atom =>
    have made := tracks.level begins (kept_limits.atomic atom) (logs_atomic atom)
      (stands_atomic atom) rfl rfl
    exact ⟨_, tracks.cons (tracked_nil made) _⟩
  | sequence children ih | parallel children ih =>
    obtain ⟨es, parts⟩ := ih begins
    exact ⟨es, tracks.cons parts _⟩
  | found taken undo ih =>
    have took := tracks.level begins (kept_limits.takeVisible taken) (logs_takeVisible? taken)
      (stands_takeVisible? taken) rfl rfl
    obtain ⟨es, parts⟩ := ih (tracks.last took)
    exact ⟨_, tracks.cons (tracks.after parts took) _⟩
  | unopened push =>
    obtain ⟨rfl, -⟩ := pushScope_error push
    exact ⟨[], tracks.cons (tracked_nil begins) _⟩
  | unsettled push settle ih =>
    have opened := tracks.opened push
    obtain ⟨es, parts⟩ := ih (tracks.last opened)
    exact ⟨_, tracks.cons (tracks.after parts opened) _⟩
  | settled push settle left ih =>
    subst left
    obtain ⟨es, parts⟩ := ih (tracks.last (tracks.opened push))
    obtain ⟨es', whole⟩ := tracks.leave push parts _ _
    exact ⟨es', tracks.cons whole _⟩
  | finished => exact ⟨[], tracks.cons (tracked_nil begins) _⟩
  | passed passes rest ih =>
    obtain ⟨es, parts⟩ := ih begins
    exact ⟨es, tracks.cons parts _⟩
  | next stays first rest ih ih' =>
    obtain ⟨es, parts⟩ := ih begins
    obtain ⟨es', parts'⟩ := ih' (tracks.last parts.whole)
    exact ⟨_, tracks.cons (tracks.both parts parts') _⟩
  | stopped stays first ih =>
    obtain ⟨es, parts⟩ := ih begins
    exact ⟨es, tracks.cons parts _⟩
  | quiet body none ih =>
    obtain ⟨es, parts⟩ := ih begins
    exact ⟨es, tracks.cons parts _⟩
  | killed body pending none ih =>
    obtain ⟨es, parts⟩ := ih begins
    exact ⟨_, tracks.cons (tracks.andThen parts
      (tracks.observe (tracks.last parts.whole) rfl rfl)) _⟩
  | @undone role id p c s s₁ s₂ s₃ starts starts' k v body pending taken undo ih ih' =>
    obtain ⟨es, parts⟩ := ih begins
    have start := tracks.level (tracks.last parts.whole) (kept_limits.undoing taken)
      (logs_undoing taken (logs_refl _)) (stands_undoing taken) rfl rfl
    obtain ⟨es', undone⟩ := ih' (tracks.last start)
    have stop : R s₃ [.compensationEnd id] ((s₃.kill k).observe (.compensationEnd id)) :=
      tracks.level (tracks.last undone.whole) rfl rfl (stands_of_eq rfl rfl rfl) rfl rfl
    exact ⟨_, tracks.cons (tracks.both parts (tracks.andThen (tracks.after undone start) stop)) _⟩
  | interrupted body pending taken undo ih ih' =>
    obtain ⟨es, parts⟩ := ih begins
    have start := tracks.level (tracks.last parts.whole) (kept_limits.undoing taken)
      (logs_undoing taken (logs_refl _)) (stands_undoing taken) rfl rfl
    obtain ⟨es', undone⟩ := ih' (tracks.last start)
    exact ⟨_, tracks.cons (tracks.both parts (tracks.after undone start)) _⟩
  | captured body none ih =>
    obtain ⟨es, parts⟩ := ih begins
    exact ⟨_, tracks.cons (tracks.andThen parts
      (tracks.observe (tracks.last parts.whole) rfl rfl)) _⟩
  | @dispatched role id p h s s₁ s₂ starts starts' f v r body taken handling ih ih' =>
    obtain ⟨es, parts⟩ := ih begins
    have start := tracks.level (tracks.last parts.whole) (kept_limits.handling taken _)
      (logs_handling taken (logs_refl _))
      (stands_handling taken (.faultDispatch s₁.currentScope f.name)) rfl rfl
    obtain ⟨es', handled⟩ := ih' (tracks.last start)
    exact ⟨_, tracks.cons (tracks.both parts (tracks.after handled start)) _⟩
  | aborted body ih =>
    obtain ⟨es, parts⟩ := ih begins
    exact ⟨es, tracks.cons parts _⟩

end Tracks

end Orchestration
