import Orchestration.Proofs.Derivation
import Orchestration.Proofs.Variables

/-!
# What can be read after a write

A write that meets no gap changes the value at its own path; one that meets a gap changes
none. Nodes that are created on the way have no value, so at any other path the same is read
as before: shorter and longer paths, other positions and other names included. The delivery of a
fault is two writes below the id of the current scope; the name of the fault is written last, into
a slot that is reserved for it.
-/

set_option autoImplicit false

namespace Orchestration

theorem Segment.eq_iff_of_name {s g : Segment} (name : s.name = g.name) :
    g = s ↔ g.index = s.index := by
  obtain ⟨n, i⟩ := s
  obtain ⟨m, j⟩ := g
  cases name
  simp only [Segment.mk.injEq, true_and]

namespace Tree

def valueAt (t : Tree) (steps : List Segment) : Value := ((t.follow? steps).map value).getD .void

def valueIn (nodes : List Tree) (s : Segment) (rest : List Segment) : Value :=
  (nodes[s.index.toNat]?.getD empty).valueAt rest

theorem valueAt_empty (steps : List Segment) : empty.valueAt steps = .void := by
  cases steps <;> rfl

theorem valueAt_cons (t : Tree) (s : Segment) (rest : List Segment) :
    t.valueAt (s :: rest) = valueIn (t.elements s.name) s rest := by
  unfold valueAt valueIn
  rw [follow?]
  cases (t.elements s.name)[s.index.toNat]? with
  | none => exact (valueAt_empty rest).symm
  | some child => rfl

theorem elements_bind (t : Tree) (k : String) (nodes : List Tree) (name : String) :
    (t.bind k nodes).elements name = if k = name then nodes else t.elements name := by
  unfold elements
  rw [child?_bind]
  split <;> rfl

theorem getElem?_place {nodes : List Tree} {i : Nat} (fits : i ≤ nodes.length) (child : Tree)
    (j : Nat) : (place nodes i child)[j]? = if j = i then some child else nodes[j]? := by
  have taken : (nodes.take i).length = i := by rw [List.length_take, Nat.min_eq_left fits]
  unfold place
  rcases Nat.lt_trichotomy j i with before | rfl | behind
  · rw [if_neg (by omega), List.getElem?_append_left (by omega), List.getElem?_take_of_lt before]
  · rw [if_pos rfl, List.getElem?_append_right (by omega), taken, Nat.sub_self]
    rfl
  · obtain ⟨n, rfl⟩ : ∃ n, j = i + (n + 1) := ⟨j - i - 1, by omega⟩
    rw [if_neg (by omega), List.getElem?_append_right (by omega), taken, Nat.add_sub_cancel_left,
      List.getElem?_cons_succ, List.getElem?_drop]
    congr 1
    omega

theorem valueIn_reachIn {v : Value} {rest : List Segment}
    (inner : ∀ t q, (reach (setValue v) rest t).2.valueAt q =
      if (reach (setValue v) rest t).1 = none ∧ q = rest then v else t.valueAt q)
    (nodes : List Tree) (s g : Segment) (q : List Segment) :
    valueIn (reachIn (setValue v) s rest nodes).2 g q =
      if (reachIn (setValue v) s rest nodes).1 = none ∧ g.index = s.index ∧ q = rest then v
      else valueIn nodes g q := by
  unfold reachIn
  split
  · rw [if_neg (by simp)]
  · next fits =>
    show ((place nodes _ _)[_]?.getD empty).valueAt q = _
    rw [getElem?_place (Nat.le_of_not_lt fits)]
    by_cases same : g.index = s.index
    · rw [same, if_pos rfl, Option.getD_some, inner]
      simp only [valueIn, same, true_and]
    · have apart : g.index.toNat ≠ s.index.toNat := fun eq => same (UInt64.toNat_inj.mp eq)
      rw [if_neg apart, if_neg fun both => same both.2.1]
      rfl

theorem valueAt_reach (v : Value) (steps : List Segment) (t : Tree) (q : List Segment) :
    (reach (setValue v) steps t).2.valueAt q =
      if (reach (setValue v) steps t).1 = none ∧ q = steps then v else t.valueAt q := by
  induction steps generalizing t q with
  | nil =>
    cases q with
    | nil => rfl
    | cons g q => rw [if_neg (by simp)]; rfl
  | cons s rest ih =>
    rw [reach_cons]
    cases q with
    | nil => rw [if_neg (by simp)]; rfl
    | cons g q =>
      rw [valueAt_cons, valueAt_cons, elements_bind]
      by_cases name : s.name = g.name
      · rw [if_pos name, valueIn_reachIn ih, ← name]
        simp only [List.cons.injEq, Segment.eq_iff_of_name name]
      · rw [if_neg name, if_neg]
        rintro ⟨-, same⟩
        exact name (congrArg Segment.name (List.cons.inj same).1).symm

end Tree

namespace Environment

theorem value_eq (e : Environment) (p : Path) :
    e.value p = Tree.valueIn ((e.visible? p.first.name).getD []) p.first p.rest := by
  unfold value Tree.valueIn
  rw [lookup?_eq]
  cases e.visible? p.first.name with
  | none => exact (Tree.valueAt_empty p.rest).symm
  | some nodes =>
    rw [Option.bind_some, Option.getD_some]
    cases nodes[p.first.index.toNat]? with
    | none => exact (Tree.valueAt_empty p.rest).symm
    | some child => rfl

theorem visible?_bind (e : Environment) (k : String) (nodes : List Tree) (name : String) :
    (e.setBindings (e.current.bindings.bind k nodes)).visible? name =
      if k = name then some nodes else e.visible? name := by
  rw [visible?_eq, visible?_eq]
  show ((e.current.bindings.bind k nodes).child? name).or _ = _
  rw [Tree.child?_bind]
  split <;> rfl

/-- A write that meets no gap changes the value at its path, and no write changes another one. -/
theorem value_write (e : Environment) (p : Path) (v : Value) (q : Path) :
    (e.write p v).2.value q = if (e.write p v).1 = none ∧ q = p then v else e.value q := by
  obtain ⟨s, rest⟩ := p
  obtain ⟨g, after⟩ := q
  unfold write
  rw [update_eq, value_eq, value_eq, visible?_bind]
  by_cases name : s.name = g.name
  · rw [if_pos name, Option.getD_some, Tree.valueIn_reachIn (Tree.valueAt_reach v rest), ← name]
    simp only [Path.mk.injEq, Segment.eq_iff_of_name name]
  · rw [if_neg name, if_neg]
    rintro ⟨-, same⟩
    exact name (congrArg (fun p => p.first.name) same).symm

end Environment

namespace Session

variable {τ : Type}

theorem fits_faultSlot (e : Environment) (scope name : String) (v : Value) :
    (e.write (faultSlot scope name) v).1 = none :=
  Tree.reach_of_index_zero (Tree.setValue v) _ (faultSlot_index scope name)
    (e.inherit scope).current.bindings

theorem value_delivered (s : Session τ) (f : Fault) (q : Path) :
    (s.delivered f).env.value q =
      if q = faultSlot s.currentScope nameSlot then .str f.name
      else if q = faultSlot s.currentScope f.name then f.payload
      else s.env.value q := by
  unfold delivered
  rw [Environment.value_write, Environment.value_write, fits_faultSlot, fits_faultSlot]
  simp only [true_and]

theorem name_delivered (s : Session τ) (f : Fault) :
    (s.delivered f).env.value (faultSlot s.currentScope nameSlot) = .str f.name := by
  rw [value_delivered, if_pos rfl]

/-- The name is written last, so it hides the payload of a fault that is called like its slot. -/
theorem payload_delivered (s : Session τ) {f : Fault} (proper : f.name ≠ nameSlot) :
    (s.delivered f).env.value (faultSlot s.currentScope f.name) = f.payload := by
  have apart : faultSlot s.currentScope f.name ≠ faultSlot s.currentScope nameSlot := by
    intro same
    have steps := congrArg Path.rest same
    exact proper (congrArg Segment.name (List.cons.inj steps).1)
  rw [value_delivered, if_neg apart, if_pos rfl]

end Session

/-- A fault can always be delivered. Afterwards its name is read in the reserved slot below the id
of the current scope, and its payload in the slot of the name, unless the fault is called like the
reserved slot. Every other path reads as before, and nothing but the innermost frame has changed. -/
theorem delivered_fault_is_readable (τ : Type) (s : Session τ) (f : Fault) :
    let slot (name : String) : Path := ⟨⟨s.currentScope, 0⟩, [⟨name, 0⟩]⟩
    ∃ e, s.deliver f = (.ok (), { s with env := e }) ∧
      e.value (slot "default") = .str f.name ∧
      (f.name ≠ "default" → e.value (slot f.name) = f.payload) ∧
      (∀ q, q ≠ slot f.name → q ≠ slot "default" → e.value q = s.env.value q) ∧
      e.enclosing = s.env.enclosing ∧ e.current.scope = s.env.current.scope := by
  intro slot
  refine ⟨(s.delivered f).env, s.deliver_eq f, s.name_delivered f, s.payload_delivered, ?_, ?_, ?_⟩
  · intro q payload name
    rw [s.value_delivered]
    exact (if_neg name).trans (if_neg payload)
  · show (Environment.write _ _ _).2.enclosing = _
    rw [Environment.write_enclosing, Environment.write_enclosing]
  · show (Environment.write _ _ _).2.current.scope = _
    rw [Environment.write_scope, Environment.write_scope]

theorem reserved_slot_hides_payload :
    let s := ((Session.start .standard none ()).pushScope "order").2
    let f : Fault := ⟨"default", .int 7⟩
    s.currentScope = "order" ∧ (s.deliver f).1 = .ok () ∧
      (s.deliver f).2.env.value ⟨⟨"order", 0⟩, [⟨f.name, 0⟩]⟩ = .str "default" ∧
      (s.deliver f).2.env.value ⟨⟨"order", 0⟩, [⟨f.name, 0⟩]⟩ ≠ f.payload := by
  intro s f
  have name : (s.deliver f).2.env.value ⟨⟨"order", 0⟩, [⟨f.name, 0⟩]⟩ = .str "default" := by rfl
  refine ⟨rfl, rfl, name, ?_⟩
  rw [name]
  decide

end Orchestration
