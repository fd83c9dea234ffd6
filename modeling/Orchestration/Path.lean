/-!
# Variable paths

A path names a node of a tree of variables, step by step: a child name and the
position of an element among the children of that name. In text the steps are
joined by dots and a position other than 0 stands in brackets, as in
`order.items[2].price`.
-/

set_option autoImplicit false

namespace Orchestration

structure Segment where
  name : String
  index : UInt64
  deriving DecidableEq, Repr, Inhabited

/-- A path has at least one step; the first one selects a binding of a frame. -/
structure Path where
  first : Segment
  rest : List Segment
  deriving DecidableEq, Repr, Inhabited

namespace Segment

/-- Names that a written path can hold. -/
def Valid (s : Segment) : Prop :=
  s.name ≠ "" ∧ ∀ c ∈ s.name.toList, c ≠ '.' ∧ c ≠ '[' ∧ c ≠ ']'

instance (s : Segment) : Decidable s.Valid :=
  @instDecidableAnd _ _ _ (List.decidableBAll _ _)

def chars (s : Segment) : List Char :=
  if s.index = 0 then s.name.toList
  else s.name.toList ++ '[' :: (Nat.toDigits 10 s.index.toNat ++ [']'])

def text (s : Segment) : String := String.ofList s.chars

end Segment

namespace Path

def segments (p : Path) : List Segment := p.first :: p.rest

def ofSegments? : List Segment → Option Path
  | [] => none
  | s :: rest => some ⟨s, rest⟩

def root (name : String) : Path := ⟨⟨name, 0⟩, []⟩

def join (p : Path) (s : Segment) : Path := { p with rest := p.rest ++ [s] }

def Valid (p : Path) : Prop := ∀ s ∈ p.segments, s.Valid

instance (p : Path) : Decidable p.Valid := by unfold Valid; infer_instance

def chars (p : Path) : List Char :=
  p.rest.foldl (fun text s => text ++ '.' :: s.chars) p.first.chars

def text (p : Path) : String := String.ofList p.chars

end Path

end Orchestration
