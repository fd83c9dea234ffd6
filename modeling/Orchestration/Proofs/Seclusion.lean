import Orchestration.Proofs.Nesting

/-!
# Work that keeps to itself

A work without `kill` and `compensate`, whose scopes all close their frames, may write,
fail, open scopes and install handlers. As long as what it installs is of the same sort,
nothing is pending anywhere in it: so no scope in it looks for its compensation, and
when it ends the tables around the current one are as they were.
-/

set_option autoImplicit false

namespace Orchestration

open Activity

namespace Engine

open Session

variable {τ : Type}

/-- Activities that request termination, take a compensation of any frame, or leave one open. -/
def meddles : Activity → Bool
  | .kill .. => true
  | .compensate _ => true
  | p => leavesOpen p

/-- A compensation that a scope has started: the scope and the activity, the current frame, the
depth of the frames, and what was pending. -/
structure Undoing where
  scope : String
  undo : Activity
  frame : String
  depth : Nat
  pending : Option Fault

def Start.undoing? (x : Start τ) : Option Undoing :=
  match x.work with
  | .settle .compensation id c =>
    some ⟨id, c, x.session.currentScope, x.session.depth, x.session.pending⟩
  | _ => none

def undoings (starts : List (Start τ)) : List Undoing := starts.filterMap Start.undoing?

theorem undoings_cons (x : Start τ) (starts : List (Start τ)) :
    undoings (x :: starts) = undoings [x] ++ undoings starts :=
  List.filterMap_append (l := [x])

theorem undoings_append (starts starts' : List (Start τ)) :
    undoings (starts ++ starts') = undoings starts ++ undoings starts' := List.filterMap_append

structure Placid (s : Session τ) : Prop where
  quiet : s.pending = none
  tame : s.handlers.weight (count meddles) = 0

theorem Placid.of_eq {s s' : Session τ} (h : Placid s) (pending : s'.pending = s.pending)
    (handlers : s'.handlers = s.handlers) : Placid s' where
  quiet := pending.trans h.quiet
  tame := by rw [handlers]; exact h.tame

theorem placid_atomic {p : Activity} {s : Session τ} {r : Answer τ Unit}
    (atom : atomic? p s = some r) (own : p.count meddles = 0) (h : Placid s) : Placid r.2 := by
  cases p with
  | nil | throw | exit => cases atom; exact h
  | assign path value =>
    cases atom
    rw [write_snd]
    exact h.of_eq rfl rfl
  | print parts =>
    cases atom
    obtain ⟨calls, output, eq⟩ := offerAll_snd
      (lineCalls (parts.map fun e => (e.eval s.env).text)) s
    change Placid (offerAll _ s).2
    rw [eq]
    exact h.of_eq rfl rfl
  | install hs =>
    cases atom
    have added := Handlers.weight_installAll_le hs s.handlers s.currentScope (count meddles)
    have entries : sumOf (count meddles) hs = 0 := by
      rw [count, total, totalOfHandlers_eq_sumOf] at own
      exact (Nat.add_eq_zero_iff.mp own).2
    rw [h.tame, entries] at added
    change Placid (installAll s hs)
    rw [installAll_handlers]
    exact ⟨h.quiet, Nat.eq_zero_of_le_zero added⟩
  | kill | compensate => cases own
  | sequence | parallel | scope => cases atom

theorem placid_handling {s s' : Session τ} {f : Fault} {c : Activity}
    (taken : s.takeHandler? f.name true = some (c, s')) (h : Placid s) :
    c.count meddles = 0 ∧ Placid (s'.delivered f) ∧ (s'.delivered f).enclosing = s.enclosing := by
  obtain ⟨table, found, rfl⟩ := takeHandler?_eq taken
  have gone := Handlers.weight_takeFault? (w := count meddles) found
  rw [h.tame] at gone
  obtain ⟨own, left⟩ := Nat.add_eq_zero_iff.mp (Nat.eq_zero_of_le_zero gone)
  exact ⟨own, ⟨h.quiet, left⟩, rfl⟩

theorem closes_of_count {id : String} {body : Activity} {autoPop : Bool}
    (own : (Activity.scope id body autoPop).count meddles = 0) :
    autoPop = true ∧ body.count meddles = 0 := by
  cases autoPop with
  | true => exact ⟨rfl, (Nat.add_eq_zero_iff.mp own).2⟩
  | false => cases (Nat.add_eq_zero_iff.mp own).1

/-- The work starts no compensation besides itself and leaves no frame open. If it does not abort
then it leaves the session placid, and the tables around the current one alone. -/
structure Secluded (w : Work) (s : Session τ) (starts : List (Start τ)) (r : Answer τ Unit) :
    Prop where
  alone : undoings starts = undoings [⟨w, s⟩]
  closed : openings starts = 0
  kept : (∀ a, r.1 ≠ .error (.abort a)) → Placid r.2 ∧ r.2.enclosing = s.enclosing

theorem secluded_alone {w : Work} {s : Session τ} {r : Answer τ Unit}
    (closes : openings [⟨w, s⟩] = 0) (placid : Placid r.2) (same : r.2.enclosing = s.enclosing) :
    Secluded w s [⟨w, s⟩] r := ⟨rfl, closes, fun _ => ⟨placid, same⟩⟩

theorem openings_eq (x : Start τ) (starts : List (Start τ)) :
    openings (x :: starts) = openings [x] + openings starts := openings_append [x] starts

theorem Secluded.cons {w w' : Work} {s s₁ : Session τ} {starts : List (Start τ)}
    {r r' : Answer τ Unit} (part : Secluded w' s₁ starts r) (other : undoings [⟨w', s₁⟩] = [])
    (closes : openings [⟨w, s⟩] = 0)
    (kept : (∀ a, r'.1 ≠ .error (.abort a)) → Placid r'.2 ∧ r'.2.enclosing = s.enclosing) :
    Secluded w s (⟨w, s⟩ :: starts) r' where
  alone := by rw [undoings_cons, part.alone, other, List.append_nil]
  closed := by rw [openings_eq, part.closed, closes]
  kept := kept

theorem Secluded.both {w w₁ w₂ : Work} {s s₁ s₂ : Session τ} {starts starts' : List (Start τ)}
    {r₁ r : Answer τ Unit} (first : Secluded w₁ s₁ starts r₁) (second : Secluded w₂ s₂ starts' r)
    (other : undoings [⟨w₁, s₁⟩] = []) (other' : undoings [⟨w₂, s₂⟩] = [])
    (closes : openings [⟨w, s⟩] = 0) (same : s₂.enclosing = s.enclosing) :
    Secluded w s (⟨w, s⟩ :: (starts ++ starts')) r where
  alone := by
    rw [undoings_cons, undoings_append, first.alone, second.alone, other, other', List.append_nil,
      List.append_nil]
  closed := by rw [openings_eq, openings_append, first.closed, second.closed, closes]
  kept ends := by
    obtain ⟨placid, enclosing⟩ := second.kept ends
    exact ⟨placid, enclosing.trans same⟩

variable [Tracer τ]

theorem placid_leave {id : String} {v : Verdict} {s s₂ : Session τ} (placid : Placid s)
    (inner : Placid s₂) (tables : s₂.enclosing = s.tables)
    (ends : ∀ a, (leave id true v s₂).1 ≠ .error (.abort a)) :
    Placid (leave id true v s₂).2 ∧ (leave id true v s₂).2.enclosing = s.enclosing := by
  rcases s₂.popScope_cases v.merge with ⟨env, popped, -⟩ | ⟨-, refused⟩
  · rw [leave_of_popped popped]
    obtain ⟨tracer, resolved⟩ := resolve_snd id v (s₂.closed v.merge env)
    rw [resolved]
    refine ⟨⟨?_, ?_⟩, ?_⟩
    · obtain ⟨handlers, enclosing, tracer', closed⟩ := s₂.closed_eq v.merge env
      rw [closed]
      exact inner.quiet
    · have absorbed := s.handlers.weight_absorb_le (w := count meddles) s₂.handlers
      rw [placid.tame, inner.tame] at absorbed
      unfold Session.closed
      rw [tables]
      change Handlers.weight _ (if v.merge = true then s.handlers.absorb s₂.handlers
        else s.handlers) = 0
      split
      · exact Nat.eq_zero_of_le_zero absorbed
      · exact placid.tame
    · exact (s₂.tables_closed v.merge env).trans (congrArg List.tail tables)
  · unfold leave at ends
    rw [if_pos rfl, refused] at ends
    exact absurd rfl (ends _)

theorem Yields.secluded {w : Work} {s : Session τ} {starts : List (Start τ)} {v : Verdict}
    {r : Answer τ Unit} (h : Yields w s starts v r) (own : w.count meddles = 0)
    (placid : Placid s) : Secluded w s starts r := by
  induction h with
  | refused step =>
    rw [stepped_eq step]
    exact secluded_alone rfl (placid.of_eq rfl rfl) rfl
  | stepped step rest ih =>
    rw [stepped_eq step] at rest ih
    have inner := ih own (placid.of_eq rfl rfl)
    exact inner.cons rfl rfl inner.kept
  | @atomic p s r atom =>
    obtain ⟨env, handlers, pending, calls, output, eq, -⟩ := atomic_snd atom
    have same : r.2.enclosing = s.enclosing := by rw [eq]
    refine secluded_alone ?_ (placid_atomic atom own placid) same
    rw [openings_cons]
    change 0 + (leavesOpen p).toNat = 0
    rw [atomic_leavesOpen atom]
    rfl
  | sequence children ih =>
    have inner := ih (Nat.add_eq_zero_iff.mp own).2 placid
    exact inner.cons rfl rfl inner.kept
  | parallel children ih =>
    have inner := ih (Nat.add_eq_zero_iff.mp own).2 placid
    exact inner.cons rfl rfl inner.kept
  | found taken undo ih => cases own
  | unopened push =>
    obtain ⟨rfl, -⟩ := pushScope_error push
    obtain ⟨rfl, -⟩ := closes_of_count own
    exact secluded_alone rfl placid rfl
  | unsettled push settle ih =>
    obtain ⟨rfl, body⟩ := closes_of_count own
    obtain ⟨a, rfl⟩ := settle.settle_error
    rw [opened_of_pushScope push] at ih
    exact (ih body ⟨placid.quiet, rfl⟩).cons rfl rfl fun ends => absurd rfl (ends a)
  | settled push settle left ih =>
    obtain ⟨rfl, body⟩ := closes_of_count own
    rw [opened_of_pushScope push] at ih
    have inner := ih body ⟨placid.quiet, rfl⟩
    obtain ⟨calm, tables⟩ := inner.kept ok_ne_abort
    subst left
    exact inner.cons rfl rfl (placid_leave placid calm tables)
  | finished => exact secluded_alone rfl placid rfl
  | passed passes rest ih =>
    rw [Session.killed, placid.quiet] at passes
    cases passes
  | next stays first rest ih ih' =>
    obtain ⟨own, others⟩ := Nat.add_eq_zero_iff.mp own
    have before := ih own placid
    obtain ⟨calm, same⟩ := before.kept ok_ne_abort
    exact before.both (ih' others calm) rfl rfl rfl same
  | stopped stays first ih =>
    have inner := ih (Nat.add_eq_zero_iff.mp own).1 placid
    exact inner.cons rfl rfl inner.kept
  | quiet body none ih =>
    have inner := ih own placid
    exact inner.cons rfl rfl inner.kept
  | killed body pending none ih | undone body pending taken undo ih ih'
  | interrupted body pending taken undo ih ih' =>
    -- Nothing is pending where the body returns, so no scope looks for its compensation.
    have inner := ih own placid
    cases pending.symm.trans (inner.kept ok_ne_abort).1.quiet
  | captured body none ih =>
    have inner := ih own placid
    obtain ⟨calm, same⟩ := inner.kept (fault_ne_abort _)
    exact inner.cons rfl rfl fun _ => ⟨calm.of_eq rfl rfl, same⟩
  | dispatched body taken handling ih ih' =>
    have inner := ih own placid
    obtain ⟨calm, same⟩ := inner.kept (fault_ne_abort _)
    obtain ⟨handler, delivered, tables⟩ := placid_handling taken calm
    have handled := ih' handler (delivered.of_eq rfl rfl)
    exact inner.both handled rfl rfl rfl (tables.trans same)
  | aborted body ih =>
    have inner := ih own placid
    exact inner.cons rfl rfl inner.kept

end Engine

end Orchestration
