import Orchestration.Proofs.Merging

/-!
# A frame among others that is merged ahead of time

An open frame may be merged into the one around it while further frames are open inside. The
two environments that differ in this show the same vector of each name, and they still differ in
nothing else after an update, after a frame is opened and after one of the inner frames is merged:
merging three frames into one comes to the same whichever two of them are merged first.
-/

set_option autoImplicit false

namespace Orchestration

namespace Tree

theorem overlay_overlay (t u v : Tree) (distinct : u.children.names.Nodup) :
    t.overlay (u.overlay v) = (t.overlay u).overlay v :=
  congrArg (Tree.node t.value) (Dict.merge_merge _ distinct _)

end Tree

namespace Environment

/-- The second environment is the first one with a frame merged into the one around it, over which
`n` further frames are open. -/
inductive MergesAt : Nat → Environment → Environment → Prop
  | here {e m : Environment} : e.Distinct → e.pop? true = some m → MergesAt 0 e m
  | under {n : Nat} {e m : Environment} (f : Frame) : MergesAt n e m →
      MergesAt (n + 1) ⟨f, e.frames⟩ ⟨f, m.frames⟩

theorem mergesAt_push (e : Environment) (scope : String) : MergesAt 0 (e.push scope) e :=
  .here (e.distinct_push scope) (e.pop?_push scope)

namespace MergesAt

variable {n : Nat} {e m : Environment}

theorem pop? (h : MergesAt 0 e m) : e.pop? true = some m := by
  cases h with
  | here distinct popped => exact popped

theorem push (h : MergesAt n e m) (scope : String) :
    MergesAt (n + 1) (e.push scope) (m.push scope) := .under _ h

theorem depth_eq (h : MergesAt n e m) : e.depth = m.depth + 1 := by
  induction h with
  | here distinct popped =>
    obtain ⟨parent, outer, enclosing, rfl⟩ := merged_eq popped
    rw [depth, enclosing]
    rfl
  | under f inner ih => exact congrArg (· + 1) ih

theorem visible? (h : MergesAt n e m) (name : String) : m.visible? name = e.visible? name := by
  induction h with
  | here distinct popped => exact visible?_merged distinct popped name
  | @under n e m f inner ih =>
    rw [visible?_eq, visible?_eq]
    exact congrArg (Option.or (f.bindings.child? name)) ih

theorem value (h : MergesAt n e m) (p : Path) : m.value p = e.value p := by
  rw [Environment.value, lookup?_eq, h.visible?, ← lookup?_eq]
  rfl

theorem bind (h : MergesAt n e m) (name : String) (nodes : List Tree) :
    MergesAt n (e.setBindings (e.current.bindings.bind name nodes))
      (m.setBindings (m.current.bindings.bind name nodes)) := by
  cases h with
  | here distinct popped =>
    exact .here (Dict.nodup_insert distinct name nodes) (pop?_bind distinct popped name nodes)
  | under f inner => exact .under _ inner

theorem update (h : MergesAt n e m) (f : Tree → Tree) (p : Path) :
    (m.update f p).1 = (e.update f p).1 ∧ MergesAt n (e.update f p).2 (m.update f p).2 := by
  rw [update_eq, update_eq, h.visible?]
  exact ⟨rfl, h.bind _ _⟩

theorem overlay (h : MergesAt n e m) (t : Tree) :
    MergesAt n (e.setBindings (e.current.bindings.overlay t))
      (m.setBindings (m.current.bindings.overlay t)) := by
  cases h with
  | here distinct popped =>
    obtain ⟨parent, outer, enclosing, rfl⟩ := merged_eq popped
    have assoc := parent.bindings.overlay_overlay e.current.bindings t distinct
    refine .here (Dict.nodup_merge distinct t.children) ?_
    simp only [Environment.pop?, setBindings, enclosing, if_true, assoc]
  | under f inner => exact .under _ inner

theorem popped (h : MergesAt (n + 1) e m) :
    ∃ e' m', e.pop? true = some e' ∧ m.pop? true = some m' ∧ MergesAt n e' m' := by
  cases h with
  | under f inner => exact ⟨_, _, rfl, rfl, inner.overlay f.bindings⟩

end MergesAt

end Environment

namespace Expr

mutual

theorem eval_congr {e m : Environment} (same : ∀ p, m.value p = e.value p) :
    ∀ x : Expr, x.eval m = x.eval e
  | .literal _ => rfl
  | .path p => same p
  | .concat parts => congrArg Value.str (joined_congr same parts)

theorem joined_congr {e m : Environment} (same : ∀ p, m.value p = e.value p) :
    ∀ xs : List Expr, joined m xs = joined e xs
  | [] => rfl
  | x :: xs => by rw [joined, joined, eval_congr same x, joined_congr same xs]

end

end Expr

end Orchestration
