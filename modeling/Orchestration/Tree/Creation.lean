import Orchestration.Session

/-!
# Creating a path

A path below a tree can be made to lead to a node: to the one that it leads to already,
or else to a new one, which has no value and binds no name. An index that is too large
is an error of the whole path; what has been created before it stays.
-/

set_option autoImplicit false

namespace Orchestration

namespace Tree

/-- The node at the end of a list of steps; where there is none, an empty one stands for it. -/
def nodeAt (t : Tree) (steps : List Segment) : Tree := (t.follow? steps).getD empty

def create (p : Path) (t : Tree) : Except StructuralError Tree × Tree :=
  match t.update id p with
  | (some g, t') => (.error (.indexOutOfRange p.text g.index g.length), t')
  | (none, t') => (.ok (t.nodeAt p.segments), t')

end Tree

end Orchestration
