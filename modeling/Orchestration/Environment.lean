import Orchestration.Tree

/-!
# Environments

One frame of variables for each open scope, the innermost first. A name is read in
the innermost frame that binds it. It is written in the innermost frame of all,
which first takes over the binding that the name has further out; so dropping a
frame restores what was there before, and merging it replaces whole bindings.
-/

set_option autoImplicit false

namespace Orchestration

structure Frame where
  scope : String
  bindings : Tree
  deriving Inhabited

structure Environment where
  current : Frame
  enclosing : List Frame
  deriving Inhabited

namespace Environment

def rootScope : String := "main"

def initial : Environment := ⟨⟨rootScope, .empty⟩, []⟩

def frames (e : Environment) : List Frame := e.current :: e.enclosing

def depth (e : Environment) : Nat := e.enclosing.length

def root (e : Environment) : Frame := e.enclosing.getLastD e.current

def push (e : Environment) (scope : String) : Environment := ⟨⟨scope, .empty⟩, e.frames⟩

/-- Closes the innermost frame; the root frame cannot be closed. -/
def pop? (e : Environment) (merge : Bool) : Option Environment :=
  match e.enclosing with
  | [] => none
  | parent :: outer =>
    let bindings := if merge then parent.bindings.overlay e.current.bindings else parent.bindings
    some ⟨{ parent with bindings := bindings }, outer⟩

def binder? (e : Environment) (name : String) : Option Frame :=
  e.frames.find? (·.bindings.hasChild name)

def lookup? (e : Environment) (p : Path) : Option Tree :=
  (e.binder? p.first.name).bind (·.bindings.lookup? p)

def value (e : Environment) (p : Path) : Value := ((e.lookup? p).map Tree.value).getD .void

def setBindings (e : Environment) (t : Tree) : Environment :=
  { e with current := { e.current with bindings := t } }

/-- Copies the nearest enclosing binding of a name into the innermost frame, unless it has one. -/
def inherit (e : Environment) (name : String) : Environment :=
  if e.current.bindings.hasChild name then e
  else match e.enclosing.findSome? (·.bindings.child? name) with
    | none => e
    | some nodes => e.setBindings (e.current.bindings.bind name nodes)

def update (f : Tree → Tree) (p : Path) (e : Environment) : Option Tree.Gap × Environment :=
  let e := e.inherit p.first.name
  let (gap, t) := e.current.bindings.update f p
  (gap, e.setBindings t)

def write (e : Environment) (p : Path) (v : Value) : Option Tree.Gap × Environment :=
  e.update (Tree.setValue v) p

def create (e : Environment) (p : Path) : Option Tree.Gap × Environment := e.update id p

theorem inherit_enclosing (e : Environment) (name : String) :
    (e.inherit name).enclosing = e.enclosing := by
  unfold inherit
  split
  · rfl
  · split <;> rfl

theorem inherit_scope (e : Environment) (name : String) :
    (e.inherit name).current.scope = e.current.scope := by
  unfold inherit
  split
  · rfl
  · split <;> rfl

theorem write_enclosing (e : Environment) (p : Path) (v : Value) :
    (e.write p v).2.enclosing = e.enclosing := inherit_enclosing ..

theorem write_scope (e : Environment) (p : Path) (v : Value) :
    (e.write p v).2.current.scope = e.current.scope := inherit_scope ..

theorem pop?_eq_some {e popped : Environment} {merge : Bool} (h : e.pop? merge = some popped) :
    popped.frames.drop 1 = e.frames.drop 2 ∧
      popped.frames.map Frame.scope = (e.frames.map Frame.scope).drop 1 ∧
      (merge = false → popped.frames = e.frames.drop 1) := by
  unfold pop? at h
  split at h
  · cases h
  · next parent outer enclosing =>
    cases h
    simp only [frames, enclosing, List.drop_succ_cons, List.drop_zero, List.map_cons, true_and]
    intro discard
    simp [discard]

end Environment

end Orchestration
