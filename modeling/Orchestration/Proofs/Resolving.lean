import Orchestration.Proofs.Writing

/-!
# Where a path leads after a write

A write creates the nodes that are missing on the way to its own, up to the first gap that it
meets, and loses none: what it takes over from an enclosing frame it takes over whole. So a path
that has led to a node still does, and the path of a write that has met no gap leads to one.
-/

set_option autoImplicit false

namespace Orchestration

namespace Tree

def followIn? (nodes : List Tree) (s : Segment) (rest : List Segment) : Option Tree :=
  nodes[s.index.toNat]?.bind (·.follow? rest)

theorem follow?_cons (t : Tree) (s : Segment) (rest : List Segment) :
    t.follow? (s :: rest) = followIn? (t.elements s.name) s rest := by
  unfold followIn?
  rw [follow?]
  cases (t.elements s.name)[s.index.toNat]? <;> rfl

theorem reachIn_of_fits (f : Tree → Tree) {s : Segment} (rest : List Segment) {nodes : List Tree}
    (fits : s.index.toNat ≤ nodes.length) :
    reachIn f s rest nodes =
      ((reach f rest (nodes[s.index.toNat]?.getD empty)).1,
        place nodes s.index.toNat (reach f rest (nodes[s.index.toNat]?.getD empty)).2) := by
  unfold reachIn
  rw [if_neg (Nat.not_lt.mpr fits)]

theorem followIn?_reachIn {f : Tree → Tree} {rest : List Segment}
    (inner : ∀ t q, (t.follow? q).isSome → ((reach f rest t).2.follow? q).isSome)
    (nodes : List Tree) (s g : Segment) (q : List Segment)
    (leads : (followIn? nodes g q).isSome) :
    (followIn? (reachIn f s rest nodes).2 g q).isSome := by
  by_cases fits : s.index.toNat ≤ nodes.length
  · rw [reachIn_of_fits f rest fits]
    unfold followIn? at *
    rw [getElem?_place fits]
    by_cases same : g.index.toNat = s.index.toNat
    · rw [same] at leads
      obtain ⟨child, own, found⟩ := Option.bind_eq_some_iff.mp (Option.eq_some_of_isSome leads)
      rw [if_pos same, own]
      exact inner child q (Option.isSome_of_eq_some found)
    · rw [if_neg same]
      exact leads
  · unfold reachIn
    rw [if_pos (Nat.lt_of_not_le fits)]
    exact leads

theorem follow?_reach {f : Tree → Tree}
    (keeps : ∀ t q, (t.follow? q).isSome → ((f t).follow? q).isSome) (steps : List Segment)
    (t : Tree) (q : List Segment) (leads : (t.follow? q).isSome) :
    ((reach f steps t).2.follow? q).isSome := by
  induction steps generalizing t q with
  | nil => exact keeps t q leads
  | cons s rest ih =>
    cases q with
    | nil => rfl
    | cons g q =>
      rw [reach_cons, follow?_cons, elements_bind]
      rw [follow?_cons] at leads
      by_cases name : s.name = g.name
      · rw [if_pos name, name]
        exact followIn?_reachIn ih _ s g q leads
      · rw [if_neg name]
        exact leads

theorem follow?_reached {f : Tree → Tree} {steps : List Segment} {t : Tree}
    (fits : (reach f steps t).1 = none) :
    ∃ u, (reach f steps t).2.follow? steps = some (f u) := by
  induction steps generalizing t with
  | nil => exact ⟨t, rfl⟩
  | cons s rest ih =>
    rw [reach_cons] at fits ⊢
    rw [follow?_cons, elements_bind, if_pos rfl]
    by_cases near : s.index.toNat ≤ (t.elements s.name).length
    · rw [reachIn_of_fits f rest near] at fits ⊢
      obtain ⟨u, found⟩ := ih fits
      refine ⟨u, ?_⟩
      unfold followIn?
      rw [getElem?_place near, if_pos rfl]
      exact found
    · unfold reachIn at fits
      rw [if_pos (Nat.lt_of_not_le near)] at fits
      cases fits

theorem reach_of_leads (f : Tree → Tree) {steps : List Segment} {t : Tree}
    (leads : (t.follow? steps).isSome) : (reach f steps t).1 = none := by
  induction steps generalizing t with
  | nil => rfl
  | cons s rest ih =>
    rw [follow?_cons] at leads
    obtain ⟨child, own, found⟩ := Option.bind_eq_some_iff.mp (Option.eq_some_of_isSome leads)
    obtain ⟨inside, -⟩ := List.getElem?_eq_some_iff.mp own
    rw [reach_cons, reachIn_of_fits f rest (Nat.le_of_lt inside), own]
    exact ih (Option.isSome_of_eq_some found)

/-! A vector is as good as a tree that binds it to a name, so what holds along steps holds along
those that start at a position of a vector. -/

theorem followIn?_reached {f : Tree → Tree} {s : Segment} {rest : List Segment}
    {nodes : List Tree} (fits : (reachIn f s rest nodes).1 = none) :
    ∃ u, followIn? (reachIn f s rest nodes).2 s rest = some (f u) := by
  have own : (empty.bind s.name nodes).elements s.name = nodes := by rw [elements_bind, if_pos rfl]
  have whole := @follow?_reached f (s :: rest) (empty.bind s.name nodes)
  rw [reach_cons, own, follow?_cons, elements_bind, if_pos rfl] at whole
  exact whole fits

theorem reachIn_of_leads (f : Tree → Tree) {s : Segment} {rest : List Segment}
    {nodes : List Tree} (leads : (followIn? nodes s rest).isSome) :
    (reachIn f s rest nodes).1 = none := by
  have own : (empty.bind s.name nodes).elements s.name = nodes := by rw [elements_bind, if_pos rfl]
  have whole := @reach_of_leads f (s :: rest) (empty.bind s.name nodes)
  rw [reach_cons, own, follow?_cons, own] at whole
  exact whole leads

theorem follow?_setValue (v : Value) (t : Tree) (q : List Segment)
    (leads : (t.follow? q).isSome) : ((t.setValue v).follow? q).isSome := by
  cases q with
  | nil => rfl
  | cons g q => exact leads

end Tree

namespace Environment

theorem lookup?_eq_followIn? (e : Environment) (p : Path) :
    e.lookup? p = (e.visible? p.first.name).bind (Tree.followIn? · p.first p.rest) :=
  e.lookup?_eq p

theorem lookup?_updated {f : Tree → Tree} {e : Environment} {p : Path}
    (fits : (e.update f p).1 = none) : ∃ u, (e.update f p).2.lookup? p = some (f u) := by
  rw [update_eq] at fits ⊢
  obtain ⟨u, found⟩ := Tree.followIn?_reached fits
  refine ⟨u, ?_⟩
  rw [lookup?_eq_followIn?, visible?_bind, if_pos rfl]
  exact found

theorem update_of_leads (f : Tree → Tree) {e : Environment} {p : Path}
    (leads : (e.lookup? p).isSome) : (e.update f p).1 = none := by
  rw [lookup?_eq_followIn?] at leads
  obtain ⟨nodes, shown, found⟩ := Option.bind_eq_some_iff.mp (Option.eq_some_of_isSome leads)
  rw [update_eq, shown]
  exact Tree.reachIn_of_leads f (Option.isSome_of_eq_some found)

/-- An update takes over the whole vector of an enclosing frame before it changes a part of it, so
a path that leads to a node still does. -/
theorem lookup?_update {f : Tree → Tree}
    (keeps : ∀ t q, (Tree.follow? t q).isSome → ((f t).follow? q).isSome) (e : Environment)
    (p q : Path) (leads : (e.lookup? q).isSome) : ((e.update f p).2.lookup? q).isSome := by
  rw [update_eq, lookup?_eq_followIn?, visible?_bind]
  rw [lookup?_eq_followIn?] at leads
  by_cases name : p.first.name = q.first.name
  · obtain ⟨nodes, shown, found⟩ := Option.bind_eq_some_iff.mp (Option.eq_some_of_isSome leads)
    rw [if_pos name, Option.bind_some, name, shown]
    exact Tree.followIn?_reachIn (Tree.follow?_reach keeps p.rest) nodes p.first q.first q.rest
      (Option.isSome_of_eq_some found)
  · rw [if_neg name]
    exact leads

end Environment

/-- A write that meets no gap leaves its value at its path, where it is then found, and changes no
other value; one that meets a gap changes no value at all. A path that leads to a node meets no gap.
In any case the frames around the innermost one are as before, and a path that has led to a node
still does. -/
theorem write_changes_one_value (e : Environment) (p : Path) (v : Value) :
    let gap := (e.write p v).1
    let e' := (e.write p v).2
    (gap = none → e'.value p = v ∧ (e'.lookup? p).map Tree.value = some v ∧
      ∀ q, q ≠ p → e'.value q = e.value q) ∧
    (gap ≠ none → ∀ q, e'.value q = e.value q) ∧
    ((e.lookup? p).isSome → gap = none) ∧
    e'.enclosing = e.enclosing ∧ e'.current.scope = e.current.scope ∧
    ∀ q, (e.lookup? q).isSome → (e'.lookup? q).isSome := by
  intro gap e'
  have reads := e.value_write p v
  refine ⟨?_, ?_, ?_, e.write_enclosing p v, e.write_scope p v, ?_⟩
  · intro fits
    refine ⟨?_, ?_, ?_⟩
    · rw [reads, if_pos ⟨fits, rfl⟩]
    · obtain ⟨u, found⟩ := Environment.lookup?_updated fits
      exact congrArg (Option.map Tree.value) found
    · intro q other
      rw [reads, if_neg fun both => other both.2]
  · intro gapped q
    rw [reads, if_neg fun both => gapped both.1]
  · exact Environment.update_of_leads _
  · exact e.lookup?_update (Tree.follow?_setValue v) p

example :
    let written := Environment.initial.write ⟨⟨"order", 0⟩, [⟨"items", 3⟩]⟩ (.str "pen")
    written.1 = some ⟨3, 0⟩ ∧ (written.2.lookup? (.root "order")).isSome = true ∧
      (Environment.initial.lookup? (.root "order")).isSome = false := by decide

end Orchestration
