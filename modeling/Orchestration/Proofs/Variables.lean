import Orchestration.Environment

/-!
# What an environment shows of a name

The vector that a name is bound to is the one of the innermost frame that binds it. Reading
and updating below the name go through that vector and through nothing else: an update binds
the name in the innermost frame to what it has made of the vector.
-/

set_option autoImplicit false

namespace Orchestration

namespace Tree

theorem child?_bind (t : Tree) (k : String) (nodes : List Tree) (name : String) :
    (t.bind k nodes).child? name = if k = name then some nodes else t.child? name :=
  Dict.get?_insert ..

theorem bind_bind (t : Tree) (name : String) (first second : List Tree) :
    (t.bind name first).bind name second = t.bind name second := by
  simp only [bind, children, value, Dict.insert_insert]

def reachIn (f : Tree → Tree) (s : Segment) (rest : List Segment) (nodes : List Tree) :
    Option Gap × List Tree :=
  if nodes.length < s.index.toNat then (some ⟨s.index, nodes.length⟩, nodes)
  else
    let (gap, child) := reach f rest (nodes[s.index.toNat]?.getD empty)
    (gap, place nodes s.index.toNat child)

theorem reach_cons (f : Tree → Tree) (s : Segment) (rest : List Segment) (t : Tree) :
    reach f (s :: rest) t = ((reachIn f s rest (t.elements s.name)).1,
      t.bind s.name (reachIn f s rest (t.elements s.name)).2) := by
  simp only [reach, reachIn]
  split <;> rfl

theorem update_bind (f : Tree → Tree) (p : Path) (t : Tree) (nodes : List Tree) :
    (t.bind p.first.name nodes).update f p =
      ((reachIn f p.first p.rest nodes).1,
        t.bind p.first.name (reachIn f p.first p.rest nodes).2) := by
  have own : (t.bind p.first.name nodes).elements p.first.name = nodes := by
    simp [elements, child?_bind]
  rw [update, Path.segments, reach_cons, own, bind_bind]

end Tree

namespace Environment

/-- The vector that a name is bound to in the innermost frame that binds it. -/
def visible? (e : Environment) (name : String) : Option (List Tree) :=
  e.frames.findSome? (·.bindings.child? name)

theorem visible?_eq (e : Environment) (name : String) :
    e.visible? name = (e.current.bindings.child? name).or
      (e.enclosing.findSome? (·.bindings.child? name)) := by
  unfold visible? frames
  rw [List.findSome?_cons]
  cases e.current.bindings.child? name <;> rfl

theorem update_eq (f : Tree → Tree) (p : Path) (e : Environment) :
    e.update f p =
      ((Tree.reachIn f p.first p.rest ((e.visible? p.first.name).getD [])).1,
        e.setBindings (e.current.bindings.bind p.first.name
          (Tree.reachIn f p.first p.rest ((e.visible? p.first.name).getD [])).2)) := by
  have shown := e.visible?_eq p.first.name
  unfold update inherit
  cases own : e.current.bindings.child? p.first.name with
  | some nodes =>
    have bound : e.current.bindings.hasChild p.first.name = true :=
      congrArg Option.isSome own
    rw [own] at shown
    have elements : e.current.bindings.elements p.first.name = nodes := by
      rw [Tree.elements, own, Option.getD_some]
    simp only [bound, if_true, Tree.update, Path.segments, Tree.reach_cons, elements, shown,
      Option.some_or, Option.getD_some]
  | none =>
    have unbound : e.current.bindings.hasChild p.first.name = false :=
      congrArg Option.isSome own
    rw [own, Option.none_or] at shown
    rw [shown]
    cases inherited : e.enclosing.findSome? (·.bindings.child? p.first.name) with
    | some nodes =>
      simp only [unbound, Bool.false_eq_true, if_false, setBindings, Tree.update_bind,
        Option.getD_some]
    | none =>
      have elements : e.current.bindings.elements p.first.name = [] := by
        rw [Tree.elements, own, Option.getD_none]
      simp only [unbound, Bool.false_eq_true, if_false, Tree.update, Path.segments,
        Tree.reach_cons, elements, Option.getD_none]

theorem update_enclosing (f : Tree → Tree) (p : Path) (e : Environment) :
    (e.update f p).2.enclosing = e.enclosing := inherit_enclosing ..

theorem lookup?_eq (e : Environment) (p : Path) :
    e.lookup? p = (e.visible? p.first.name).bind fun nodes =>
      nodes[p.first.index.toNat]?.bind (·.follow? p.rest) := by
  have inFrames (fs : List Frame) :
      ((fs.find? (·.bindings.hasChild p.first.name)).bind fun g => g.bindings.lookup? p) =
        (fs.findSome? fun g => g.bindings.child? p.first.name).bind fun nodes =>
          nodes[p.first.index.toNat]?.bind (·.follow? p.rest) := by
    induction fs with
    | nil => rfl
    | cons g fs ih =>
      rw [List.findSome?_cons, List.find?_cons]
      have same : g.bindings.hasChild p.first.name = (g.bindings.child? p.first.name).isSome := rfl
      cases own : g.bindings.child? p.first.name with
      | none => simpa [same, own] using ih
      | some nodes =>
        simp only [same, own, Option.isSome_some, Option.bind_some, Tree.lookup?, Path.segments,
          Tree.follow?, Tree.elements, Option.getD_some]
        cases nodes[p.first.index.toNat]? <;> rfl
  exact inFrames e.frames

end Environment

end Orchestration
