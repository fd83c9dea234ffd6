import Orchestration.Dict
import Orchestration.Path
import Orchestration.Value

/-!
# Trees of variables

A node holds a value and binds names to vectors of child nodes, the names in the
order of their first binding. Following a path finds a node or nothing. Updating
along a path creates what is missing on the way, but an index may extend a vector
by one element at most; an update that meets a larger index stops there and keeps
what it has created so far.
-/

set_option autoImplicit false

namespace Orchestration

inductive Tree where
  | node (value : Value) (children : List (String × List Tree))
  deriving Inhabited

namespace Tree

def value : Tree → Value
  | .node v _ => v

def children : Tree → Dict (List Tree)
  | .node _ c => c

def empty : Tree := .node .void []

def leaf (v : Value) : Tree := .node v []

def setValue (v : Value) (t : Tree) : Tree := .node v t.children

def child? (t : Tree) (name : String) : Option (List Tree) := t.children.get? name

/-- The vector bound to a name; a name that is not bound has none of its elements. -/
def elements (t : Tree) (name : String) : List Tree := (t.child? name).getD []

def first? (t : Tree) (name : String) : Option Tree := (t.elements name).head?

def hasChild (t : Tree) (name : String) : Bool := t.children.contains name

def bind (t : Tree) (name : String) (nodes : List Tree) : Tree :=
  .node t.value (t.children.insert name nodes)

def touch (t : Tree) (name : String) : Tree := t.bind name (t.elements name)

def append (t : Tree) (name : String) (child : Tree) : Tree :=
  t.bind name (t.elements name ++ [child])

def follow? (t : Tree) : List Segment → Option Tree
  | [] => some t
  | s :: rest =>
    match (t.elements s.name)[s.index.toNat]? with
    | none => none
    | some child => child.follow? rest

def lookup? (t : Tree) (p : Path) : Option Tree := t.follow? p.segments

/-- An index more than one past the end of its vector. -/
structure Gap where
  index : UInt64
  length : Nat
  deriving DecidableEq, Repr

/-- Puts a node at a position of a vector or directly behind its last element. -/
def place (nodes : List Tree) (i : Nat) (child : Tree) : List Tree :=
  nodes.take i ++ child :: nodes.drop (i + 1)

/-- Applies `f` to the node at the end of the steps, creating nodes that are missing. -/
def reach (f : Tree → Tree) : List Segment → Tree → Option Gap × Tree
  | [], t => (none, f t)
  | s :: rest, t =>
    let nodes := t.elements s.name
    let i := s.index.toNat
    if nodes.length < i then (some ⟨s.index, nodes.length⟩, t.touch s.name)
    else
      let (gap, child) := reach f rest (nodes[i]?.getD empty)
      (gap, t.bind s.name (place nodes i child))

def update (f : Tree → Tree) (p : Path) (t : Tree) : Option Gap × Tree := reach f p.segments t

def overlay (t u : Tree) : Tree := .node t.value (t.children.merge u.children)

end Tree

end Orchestration
