import Mathlib.Data.List.Forall2
import Orchestration.Proofs.Operations
import Orchestration.Proofs.Potential

/-!
# Frames and tables stay in step

A work that does not abort leaves the frames below the current one as they were. Above
them it leaves one frame more for each scope that it has ended without closing the frame.
The tables below the current one lose entries at most, to the `compensate` activities.
-/

set_option autoImplicit false

namespace Orchestration

namespace Handlers

/-- The table holds the same handlers, and of the compensations some may be gone. -/
structure Consumed (before after : Handlers) : Prop where
  faults : after.faults = before.faults
  fallback : after.fallback = before.fallback
  compensations : ∀ scope p, after.compensations.get? scope = some p →
    before.compensations.get? scope = some p

theorem Consumed.refl (h : Handlers) : Consumed h h := ⟨rfl, rfl, fun _ _ held => held⟩

theorem Consumed.trans {h h' h'' : Handlers} (first : Consumed h h') (second : Consumed h' h'') :
    Consumed h h'' where
  faults := second.faults.trans first.faults
  fallback := second.fallback.trans first.fallback
  compensations scope p held := first.compensations scope p (second.compensations scope p held)

theorem consumed_refl (hs : List Handlers) : List.Forall₂ Consumed hs hs :=
  List.forall₂_same.mpr fun h _ => Consumed.refl h

theorem consumed_trans {hs hs' hs'' : List Handlers} (first : List.Forall₂ Consumed hs hs')
    (second : List.Forall₂ Consumed hs' hs'') : List.Forall₂ Consumed hs hs'' := by
  induction first generalizing hs'' with
  | nil => exact second
  | cons head tail ih =>
    cases second with
    | cons head' tail' => exact .cons (head.trans head') (ih tail')

theorem consumed_takeCompensation? {h h' : Handlers} {scope : String} {p : Activity}
    (taken : h.takeCompensation? scope = some (p, h')) : Consumed h h' := by
  obtain ⟨q, found, eq⟩ := Option.map_eq_some_iff.mp taken
  cases eq
  refine ⟨rfl, rfl, ?_⟩
  intro name q held
  rw [Dict.get?_erase] at held
  split at held
  · cases held
  · exact held

theorem consumed_takeInnermost? {scope : String} {hs hs' : List Handlers} {p : Activity}
    (taken : takeInnermost? scope hs = some (p, hs')) : List.Forall₂ Consumed hs hs' := by
  induction hs generalizing hs' with
  | nil => cases taken
  | cons h outer ih =>
    rw [takeInnermost?] at taken
    split at taken
    · next q h' found =>
      cases taken
      exact .cons (consumed_takeCompensation? found) (consumed_refl outer)
    · obtain ⟨⟨q, rest⟩, found, eq⟩ := Option.map_eq_some_iff.mp taken
      cases eq
      exact .cons (Consumed.refl h) (ih found)

end Handlers

namespace Session

variable {τ : Type}

/-- The later session stands `n` frames above the earlier one: the frames below the current one
are the same, the scopes of all the old frames too, and their tables have lost entries at most. -/
structure Stands (s : Session τ) (n : Nat) (s' : Session τ) : Prop where
  frames : s'.env.frames.drop (n + 1) = s.env.enclosing
  scopes : (s'.env.frames.map Frame.scope).drop n = s.env.frames.map Frame.scope
  tables : List.Forall₂ Handlers.Consumed s.enclosing (s'.tables.drop (n + 1))

theorem stands_of_eq {s s' : Session τ} (frames : s'.env.enclosing = s.env.enclosing)
    (scope : s'.env.current.scope = s.env.current.scope) (tables : s'.enclosing = s.enclosing) :
    Stands s 0 s' where
  frames := frames
  scopes := by simp [Environment.frames, frames, scope]
  tables := by
    change List.Forall₂ _ _ s'.enclosing
    rw [tables]
    exact Handlers.consumed_refl _

theorem stands_refl (s : Session τ) : Stands s 0 s := stands_of_eq rfl rfl rfl

theorem Stands.trans {s s' s'' : Session τ} {n m : Nat} (first : Stands s n s')
    (second : Stands s' m s'') : Stands s (n + m) s'' where
  frames := by
    have inner := congrArg (List.drop n) second.frames
    have outer := first.frames
    rw [List.drop_drop] at inner
    change s'.env.enclosing.drop n = _ at outer
    rw [← outer, ← inner]
    congr 1
    omega
  scopes := by
    have inner := congrArg (List.drop n) second.scopes
    rw [List.drop_drop, first.scopes] at inner
    rw [← inner, Nat.add_comm]
  tables := by
    have inner := List.forall₂_drop n second.tables
    rw [List.drop_drop] at inner
    have outer : List.Forall₂ Handlers.Consumed s.enclosing (s'.enclosing.drop n) := first.tables
    have both := Handlers.consumed_trans outer inner
    rwa [show n + m + 1 = m + 1 + n by omega]

theorem Stands.then {s s' s'' : Session τ} {n : Nat} (first : Stands s 0 s')
    (second : Stands s' n s'') : Stands s n s'' := by
  have whole := first.trans second
  rwa [Nat.zero_add] at whole

theorem Stands.currentScope {s s' : Session τ} (h : Stands s 0 s') :
    s'.currentScope = s.currentScope := by
  have scopes := congrArg List.head? h.scopes
  exact Option.some.inj scopes

theorem Stands.depth_eq {s s' : Session τ} {n : Nat} (h : Stands s n s') :
    s'.depth = s.depth + n := by
  have scopes := congrArg List.length h.scopes
  simp only [Environment.frames, List.length_drop, List.length_map, List.length_cons] at scopes
  unfold Session.depth Environment.depth
  omega

theorem Stands.depth {s s' : Session τ} (h : Stands s 0 s') : s'.depth = s.depth := h.depth_eq

theorem stands_takeVisible? {s s' : Session τ} {scope : String} {p : Activity}
    (taken : s.takeVisible? scope = some (p, s')) : Stands s 0 s' := by
  obtain ⟨h, outer, found, rfl⟩ := takeVisible?_eq taken
  refine ⟨rfl, rfl, ?_⟩
  cases Handlers.consumed_takeInnermost? found with
  | cons head tail => exact tail

theorem stands_takeCompensation? {s s' : Session τ} {scope : String} {p : Activity}
    (taken : s.takeCompensation? scope = some (p, s')) : Stands s 0 s' := by
  obtain ⟨h, -, rfl⟩ := takeCompensation?_eq taken
  exact stands_of_eq rfl rfl rfl

theorem stands_takeHandler? {s s' : Session τ} {name : String} {orFallback : Bool} {p : Activity}
    (taken : s.takeHandler? name orFallback = some (p, s')) : Stands s 0 s' := by
  obtain ⟨h, -, rfl⟩ := takeHandler?_eq taken
  exact stands_of_eq rfl rfl rfl

theorem stands_delivered (s : Session τ) (f : Fault) : Stands s 0 (s.delivered f) := by
  apply stands_of_eq
  · change (Environment.write _ _ _).2.enclosing = _
    rw [Environment.write_enclosing, Environment.write_enclosing]
  · change (Environment.write _ _ _).2.current.scope = _
    rw [Environment.write_scope, Environment.write_scope]
  · rfl

variable [Tracer τ]

theorem stands_observe (s : Session τ) (e : Event) : Stands s 0 (s.observe e) :=
  stands_of_eq rfl rfl rfl

theorem stands_undoing {s s' : Session τ} {id : String} {k : Fault} {c : Activity}
    (taken : (s.observe (.killObserved id k.name)).takeCompensation? id = some (c, s')) :
    Stands s 0 (s'.clearKill.observe (.compensationStart id)) :=
  (s.stands_observe _).then ((stands_takeCompensation? taken).then (stands_of_eq rfl rfl rfl))

theorem stands_handling {s s' : Session τ} {f : Fault} {h : Activity}
    (taken : s.takeHandler? f.name true = some (h, s')) (e : Event) :
    Stands s 0 ((s'.delivered f).observe e) :=
  (stands_takeHandler? taken).then ((stands_delivered s' f).then (stands_observe ..))

theorem env_closed (s : Session τ) (merge : Bool) (env : Environment) :
    (s.closed merge env).env = env := by
  unfold closed
  cases s.enclosing <;> rfl

theorem tables_closed (s : Session τ) (merge : Bool) (env : Environment) :
    (s.closed merge env).enclosing = s.enclosing.tail := by
  unfold closed
  cases s.enclosing <;> rfl

theorem stands_opened (s : Session τ) (id : String) : Stands s 1 (s.opened id) :=
  ⟨rfl, rfl, Handlers.consumed_refl _⟩

theorem Stands.closed {s s₂ : Session τ} {id : String} {n : Nat} {merge : Bool}
    {env : Environment} (inner : Stands (s.opened id) n s₂) (popped : s₂.env.pop? merge = some env) :
    Stands s n (s₂.closed merge env) := by
  obtain ⟨frames, scopes, -⟩ := Environment.pop?_eq_some popped
  have same := s₂.env_closed merge env
  refine ⟨?_, ?_, ?_⟩
  · have below : (s₂.env.frames.drop (n + 1)).drop 1 = s.env.enclosing :=
      congrArg (List.drop 1) inner.frames
    rw [List.drop_drop] at below
    rw [same, Nat.add_comm n 1, ← List.drop_drop, frames, List.drop_drop, ← below]
    congr 1
    omega
  · have below : ((s₂.env.frames.map Frame.scope).drop n).drop 1 = s.env.frames.map Frame.scope :=
      congrArg (List.drop 1) inner.scopes
    rw [List.drop_drop] at below
    rw [same, scopes, List.drop_drop, ← below, Nat.add_comm]
  · have below : List.Forall₂ Handlers.Consumed s.enclosing ((s₂.tables.drop (n + 1)).drop 1) :=
      List.forall₂_drop 1 inner.tables
    change List.Forall₂ _ _ ((s₂.closed merge env).enclosing.drop n)
    rw [tables_closed, ← List.drop_one, List.drop_drop]
    rw [List.drop_drop] at below
    change List.Forall₂ _ _ (s₂.enclosing.drop (n + 1)) at below
    rwa [Nat.add_comm 1 n]

theorem Stands.closable {s s₂ : Session τ} {id : String} {n : Nat}
    (inner : Stands (s.opened id) n s₂) (merge : Bool) : ∃ env, s₂.env.pop? merge = some env := by
  have below : s₂.env.enclosing.drop n = s.env.frames := inner.frames
  unfold Environment.pop?
  cases enclosing : s₂.env.enclosing with
  | nil =>
    rw [enclosing, List.drop_nil] at below
    cases below
  | cons parent outer => exact ⟨_, rfl⟩

theorem Stands.discarded {s s₂ : Session τ} {id : String} {env : Environment}
    (inner : Stands (s.opened id) 0 s₂) (popped : s₂.env.pop? false = some env) :
    (s₂.closed false env).env = s.env ∧
      List.Forall₂ Handlers.Consumed s.tables (s₂.closed false env).tables := by
  obtain ⟨-, -, frames⟩ := Environment.pop?_eq_some popped
  have below : s₂.env.frames.drop 1 = s.env.frames := inner.frames
  have kept : List.Forall₂ Handlers.Consumed s.tables s₂.enclosing := inner.tables
  rw [below] at frames
  constructor
  · have same : env = s.env := by
      obtain ⟨current, enclosing⟩ := env
      have heads := frames rfl
      injection heads with head tail
      subst head tail
      rfl
    unfold Session.closed
    rw [← same]
    cases s₂.enclosing <;> rfl
  · unfold Session.closed
    generalize s₂.enclosing = tables at kept
    cases kept with
    | cons head tail => exact .cons head tail

end Session

namespace Engine

open Session

variable {τ : Type}

def leavesOpen : Activity → Bool
  | .scope _ _ autoPop => !autoPop
  | _ => false

def openings (starts : List (Start τ)) : Nat := starts.countP (Start.performs leavesOpen)

theorem openings_cons (x : Start τ) (starts : List (Start τ)) :
    openings (x :: starts) = openings starts + (x.performs leavesOpen).toNat := by
  unfold openings
  rw [List.countP_cons]
  cases x.performs leavesOpen <;> rfl

theorem openings_append (starts starts' : List (Start τ)) :
    openings (starts ++ starts') = openings starts + openings starts' := List.countP_append

theorem atomic_leavesOpen {p : Activity} {s : Session τ} {r : Answer τ Unit}
    (atom : atomic? p s = some r) : leavesOpen p = false := by
  cases p with
  | scope id body autoPop => cases atom
  | _ => rfl

theorem stands_atomic {p : Activity} {s : Session τ} {r : Answer τ Unit}
    (atom : atomic? p s = some r) : Stands s 0 r.2 := by
  obtain ⟨env, handlers, pending, calls, output, eq, frames, scope, -⟩ := atomic_snd atom
  rw [eq]
  exact stands_of_eq frames scope rfl

variable [Tracer τ]

theorem stands_resolve (id : String) (v : Verdict) (s : Session τ) :
    Stands s 0 (resolve id v s).2 := by
  unfold resolve
  split
  · split
    · exact stands_of_eq rfl rfl rfl
    · exact stands_refl s
  · exact stands_refl s

theorem stands_leave {id : String} {autoPop : Bool} {v : Verdict} {s s₂ : Session τ} {n : Nat}
    {r : Answer τ Unit} (inner : Stands (s.opened id) n s₂) (left : leave id autoPop v s₂ = r)
    (ends : ∀ a, r.1 ≠ .error (.abort a)) : Stands s (n + (!autoPop).toNat) r.2 := by
  subst left
  unfold leave at *
  cases autoPop with
  | true =>
    rw [if_pos rfl] at *
    rcases s₂.popScope_cases v.merge with ⟨env, popped, eq⟩ | ⟨-, eq⟩
    · rw [eq]
      exact (inner.closed popped).trans (stands_resolve ..)
    · rw [eq] at ends
      exact absurd rfl (ends (.structural .scopeUnderflow))
  | false =>
    rw [if_neg (by decide)] at *
    have whole := (s.stands_opened id).trans (inner.trans (stands_resolve id v s₂))
    rw [Nat.add_comm] at whole
    exact whole

theorem leave_ne_abort {id : String} {autoPop : Bool} {v : Verdict} {s s₂ : Session τ} {n : Nat}
    (inner : Stands (s.opened id) n s₂) (a : Abort) :
    (leave id autoPop v s₂).1 ≠ .error (.abort a) := by
  unfold leave
  split
  · obtain ⟨env, popped⟩ := inner.closable v.merge
    rw [popScope_of_popped popped]
    exact resolve_ne_abort id v _ a
  · exact resolve_ne_abort id v s₂ a

/-- A work that does not abort leaves one frame more for each of its scopes that does not close
its frame. -/
theorem Yields.stands {w : Work} {s : Session τ} {starts : List (Start τ)} {v : Verdict}
    {r : Answer τ Unit} (h : Yields w s starts v r) (ends : ∀ a, r.1 ≠ .error (.abort a)) :
    Stands s (openings starts) r.2 := by
  induction h with
  | @refused p s s₁ stop step =>
    rw [stepped_eq step]
    exact stands_of_eq rfl rfl rfl
  | @stepped p s s₁ starts r step rest ih =>
    have counted : Stands s 0 s₁ := by
      rw [stepped_eq step]
      exact stands_of_eq rfl rfl rfl
    rw [openings_cons]
    exact counted.then (ih ends)
  | @atomic p s r atom =>
    rw [openings_cons]
    change Stands s (0 + (leavesOpen p).toNat) r.2
    rw [atomic_leavesOpen atom]
    exact stands_atomic atom
  | sequence children ih => rw [openings_cons]; exact ih ends
  | parallel children ih => rw [openings_cons]; exact ih ends
  | found taken undo ih =>
    rw [openings_cons]
    exact (stands_takeVisible? taken).then (ih ends)
  | unopened push =>
    obtain ⟨-, e, rfl⟩ := pushScope_error push
    exact absurd rfl (ends _)
  | unsettled push settle ih =>
    obtain ⟨a, rfl⟩ := settle.settle_error
    exact absurd rfl (ends a)
  | settled push settle left ih =>
    rw [openings_cons]
    rw [opened_of_pushScope push] at ih
    exact stands_leave (ih (by nofun)) left ends
  | finished => exact stands_refl _
  | passed passes rest ih => rw [openings_cons]; exact ih ends
  | next stays first rest ih ih' =>
    rw [openings_cons, openings_append]
    exact (ih (by nofun)).trans (ih' ends)
  | stopped stays first ih => rw [openings_cons]; exact ih ends
  | quiet body none ih => rw [openings_cons]; exact ih ends
  | killed body pending none ih =>
    rw [openings_cons]
    exact (ih (by nofun)).trans (stands_of_eq rfl rfl rfl)
  | @undone role id p c s s₁ s₂ s₃ starts starts' k v body pending taken undo ih ih' =>
    have ended : Stands s₃ 0 ((s₃.kill k).observe (.compensationEnd id)) :=
      stands_of_eq rfl rfl rfl
    rw [openings_cons, openings_append]
    exact (ih (by nofun)).trans ((stands_undoing taken).then ((ih' (by nofun)).trans ended))
  | interrupted body pending taken undo ih ih' =>
    obtain ⟨a, rfl⟩ := undo.settle_error
    exact absurd rfl (ends a)
  | captured body none ih =>
    rw [openings_cons]
    exact (ih (by nofun)).trans (stands_of_eq rfl rfl rfl)
  | dispatched body taken handling ih ih' =>
    rw [openings_cons, openings_append]
    exact (ih (by nofun)).trans ((stands_handling taken _).then (ih' ends))
  | aborted body ih => exact absurd rfl (ends _)

end Engine

end Orchestration
