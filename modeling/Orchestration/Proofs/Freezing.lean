import Orchestration.Proofs.Frames
import Orchestration.Proofs.Widening

/-!
# An abort freezes the session

A session is aborted by a step, by a write, by the opening of a scope or by `exit`. The works
around the one that has done so end at once, each with the same answer: the abort, and the session
that the operation has left. So no frame is closed and no handler taken on the way out, a request
that is out of the way for a compensation stays so, and nothing is printed or observed.
-/

set_option autoImplicit false

namespace Orchestration

namespace Engine

open Session

variable {τ : Type} [Tracer τ]

/-- The work begins with an operation that answers with the abort and leaves the session. -/
inductive Start.Raises : Start τ → Abort → Session τ → Prop
  | step {p : Activity} {s s' : Session τ} {a : Abort} : s.step = (.error (.abort a), s') →
      Start.Raises ⟨.run p, s⟩ a s'
  | write {path : Path} {value : Expr} {s s' : Session τ} {a : Abort} :
      s.write path (value.eval s.env) = (.error (.abort a), s') →
      Start.Raises ⟨.perform (.assign path value), s⟩ a s'
  | push {id : String} {body : Activity} {autoPop : Bool} {s s' : Session τ} {a : Abort} :
      s.pushScope id = (.error (.abort a), s') →
      Start.Raises ⟨.perform (.scope id body autoPop), s⟩ a s'
  | exit {s : Session τ} : Start.Raises ⟨.perform .exit, s⟩ .exit s

theorem atomic_raises {p : Activity} {s s' : Session τ} {a : Abort}
    (atom : atomic? p s = some (.error (.abort a), s')) : Start.Raises ⟨.perform p, s⟩ a s' := by
  cases p with
  | assign path value => exact .write (Option.some.inj atom)
  | print parts =>
    have answer := congrArg Prod.fst (Option.some.inj atom)
    exact absurd answer (offerAll_ne_abort _ s a)
  | compensate scope =>
    simp only [atomic?] at atom
    split at atom <;> cases atom
  | exit => cases atom; exact .exit
  | nil | throw | kill | install => cases atom
  | sequence | parallel | scope => cases atom

theorem Start.Raises.origin {x : Start τ} {a : Abort} {s' : Session τ} (raises : x.Raises a s') :
    (∃ e, a = .limit e) ∨ (∃ p i n, a = .structural (.indexOutOfRange p i n)) ∨
      a = .exit ∧ x = ⟨.perform .exit, s'⟩ := by
  cases raises with
  | step step =>
    obtain ⟨e, eq, -⟩ := step_error step
    cases eq
    exact .inl ⟨e, rfl⟩
  | write write =>
    unfold Session.write at write
    dsimp only at write
    split at write <;> cases write
    exact .inr (.inl ⟨_, _, _, rfl⟩)
  | push push =>
    obtain ⟨-, e, eq⟩ := pushScope_error push
    cases eq
    exact .inl ⟨e, rfl⟩
  | exit => exact .inr (.inr ⟨rfl, rfl⟩)

def EndsWith (starts : List (Start τ)) (a : Abort) (s' : Session τ) : Prop :=
  ∃ before x, starts = before ++ [x] ∧ x.Raises a s'

theorem endsWith_single {x : Start τ} {a : Abort} {s' : Session τ} (raises : x.Raises a s') :
    EndsWith [x] a s' := ⟨[], x, rfl, raises⟩

theorem EndsWith.append {starts : List (Start τ)} {a : Abort} {s' : Session τ}
    (last : EndsWith starts a s') (earlier : List (Start τ)) :
    EndsWith (earlier ++ starts) a s' := by
  obtain ⟨before, x, rfl, raises⟩ := last
  exact ⟨earlier ++ before, x, (List.append_assoc ..).symm, raises⟩

theorem EndsWith.cons {starts : List (Start τ)} {a : Abort} {s' : Session τ}
    (last : EndsWith starts a s') (x : Start τ) : EndsWith (x :: starts) a s' := last.append [x]

/-- A work that aborts has started nothing after the work that has aborted the session, and it ends
in the session that the latter has left. -/
theorem Yields.endsWith {w : Work} {s : Session τ} {starts : List (Start τ)} {v : Verdict}
    {r : Answer τ Unit} (h : Yields w s starts v r) (a : Abort)
    (aborts : r.1 = .error (.abort a)) : EndsWith starts a r.2 := by
  induction h with
  | refused step => cases aborts; exact endsWith_single (.step step)
  | stepped step rest ih => exact (ih aborts).cons _
  | @atomic p s r atom =>
    obtain ⟨e, s'⟩ := r
    cases aborts
    exact endsWith_single (atomic_raises atom)
  | sequence children ih => exact (ih aborts).cons _
  | parallel children ih => exact (ih aborts).cons _
  | found taken undo ih => exact (ih aborts).cons _
  | unopened push => cases aborts; exact endsWith_single (.push push)
  | unsettled push settle ih => exact (ih aborts).cons _
  | settled push settle left ih =>
    -- The scope has a frame to close, so leaving it is no end of the session.
    cases opened_of_pushScope push
    subst left
    exact absurd aborts (leave_ne_abort (settle.stands nofun) a)
  | finished => cases aborts
  | passed passes rest ih => exact (ih aborts).cons _
  | next stays first rest ih ih' => exact ((ih' aborts).append _).cons _
  | stopped stays first ih => exact (ih aborts).cons _
  | quiet body none ih => cases aborts
  | killed body pending none ih => cases aborts
  | undone body pending taken undo ih ih' => cases aborts
  | interrupted body pending taken undo ih ih' => exact ((ih' aborts).append _).cons _
  | captured body none ih => cases aborts
  | dispatched body taken handling ih ih' => exact ((ih' aborts).append _).cons _
  | aborted body ih => exact (ih aborts).cons _

/-- Wherever one of the works aborts, its answer is the given one. -/
def Surfaces (starts : List (Start τ)) (r : Answer τ Unit) : Prop :=
  ∀ x ∈ starts, ∀ parts v a s', Yields x.work x.session parts v (.error (.abort a), s') →
    r = (.error (.abort a), s')

theorem surfaces_nil (r : Answer τ Unit) : Surfaces [] r :=
  fun _ among => absurd among List.not_mem_nil

theorem Surfaces.cons {w : Work} {s : Session τ} {starts : List (Start τ)} {v : Verdict}
    {r : Answer τ Unit} (inner : Surfaces starts r)
    (whole : Yields w s (⟨w, s⟩ :: starts) v r) : Surfaces (⟨w, s⟩ :: starts) r := by
  intro x among parts v' a s' aborts
  rcases List.mem_cons.mp among with rfl | inside
  · exact (whole.unique aborts).2.2.symm
  · exact inner x inside parts v' a s' aborts

theorem Surfaces.append {starts starts' : List (Start τ)} {r : Answer τ Unit}
    (first : Surfaces starts r) (second : Surfaces starts' r) : Surfaces (starts ++ starts') r := by
  intro x among
  rcases List.mem_append.mp among with left | right
  · exact first x left
  · exact second x right

theorem Surfaces.of_ends {starts : List (Start τ)} {r₁ : Answer τ Unit}
    (inner : Surfaces starts r₁) (ends : ∀ a, r₁.1 ≠ .error (.abort a)) (r : Answer τ Unit) :
    Surfaces starts r := by
  intro x among parts v a s' aborts
  have same := congrArg Prod.fst (inner x among parts v a s' aborts)
  exact absurd same (ends a)

theorem Yields.surfaces {w : Work} {s : Session τ} {starts : List (Start τ)} {v : Verdict}
    {r : Answer τ Unit} (h : Yields w s starts v r) : Surfaces starts r := by
  induction h with
  | refused step => exact (surfaces_nil _).cons (.refused step)
  | stepped step rest ih => exact ih.cons (.stepped step rest)
  | atomic atom => exact (surfaces_nil _).cons (.atomic atom)
  | sequence children ih => exact ih.cons (.sequence children)
  | parallel children ih => exact ih.cons (.parallel children)
  | found taken undo ih => exact ih.cons (.found taken undo)
  | unopened push => exact (surfaces_nil _).cons (.unopened push)
  | unsettled push settle ih => exact ih.cons (.unsettled push settle)
  | settled push settle left ih => exact (ih.of_ends nofun _).cons (.settled push settle left)
  | finished => exact (surfaces_nil _).cons .finished
  | passed passes rest ih => exact ih.cons (.passed passes rest)
  | next stays first rest ih ih' =>
    exact ((ih.of_ends nofun _).append ih').cons (.next stays first rest)
  | stopped stays first ih => exact ih.cons (.stopped stays first)
  | quiet body none ih => exact ih.cons (.quiet body none)
  | killed body pending none ih => exact (ih.of_ends nofun _).cons (.killed body pending none)
  | undone body pending taken undo ih ih' =>
    exact ((ih.of_ends nofun _).append (ih'.of_ends nofun _)).cons (.undone body pending taken undo)
  | interrupted body pending taken undo ih ih' =>
    exact ((ih.of_ends nofun _).append ih').cons (.interrupted body pending taken undo)
  | captured body none ih => exact (ih.of_ends nofun _).cons (.captured body none)
  | dispatched body taken handling ih ih' =>
    exact ((ih.of_ends nofun _).append ih').cons (.dispatched body taken handling)
  | aborted body ih => exact ih.cons (.aborted body)

end Engine

open Engine

/-- If any of the works of a run aborts, at any depth, the run comes to that very answer: to the
same abort in the same session. And if a run aborts then the operation of the work that started
last has, and the session is as this operation has left it. -/
theorem abort_freezes_session (τ : Type) [Tracer τ] (p : Activity) (s : Session τ) :
    ∃ starts, Yields (.run p) s starts .clear (p.run s) ∧
      (∀ x ∈ starts, ∀ parts v a s', Yields x.work x.session parts v (.error (.abort a), s') →
        p.run s = (.error (.abort a), s')) ∧
      ∀ a, (p.run s).1 = .error (.abort a) →
        ∃ before x, starts = before ++ [x] ∧ x.Raises a (p.run s).2 := by
  obtain ⟨starts, derivation⟩ := run_yields p s
  exact ⟨starts, derivation, derivation.surfaces, derivation.endsWith⟩

def deserted : Activity :=
  .scope "order" (.sequence [
    .install [(.this, .sequence [.print [.literal (.str "undo")], .exit]),
      (.fault "Pay", .kill "Stop" none)],
    .scope "payment" (.throw "Pay" none) true]) true

theorem deserted_is_frozen :
    let start := Session.start .standard none ()
    (deserted.run start).1 = .error (.abort .exit) ∧
      ∃ before, Yields (.run deserted) start (before ++ [⟨.perform .exit, (deserted.run start).2⟩])
        .clear (deserted.run start) := by
  intro start
  have exits : (deserted.run start).1 = .error (.abort .exit) := by rfl
  obtain ⟨starts, derivation, -, last⟩ := abort_freezes_session Unit deserted start
  obtain ⟨before, x, rfl, raises⟩ := last .exit exits
  refine ⟨exits, before, ?_⟩
  rcases raises.origin with ⟨e, other⟩ | ⟨p, i, n, other⟩ | ⟨-, exit⟩
  · cases other
  · cases other
  · rw [exit] at derivation
    exact derivation

example : ((deserted.run (.start .standard none ())).2.depth,
    (deserted.run (.start .standard none ())).2.pending) = (1, none) := by rfl

end Orchestration
