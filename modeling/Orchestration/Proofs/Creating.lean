import Orchestration.Proofs.Resolving
import Orchestration.Tree.Creation

/-!
# Which paths can be created

A path can be created exactly if no index of it lies behind the end of its vector, where a
vector that is not there yet has no elements. The creation then adds the nodes that its path has
lacked, each with no value and at the end of a vector, and changes nothing else. One that fails
does as much for the steps before the gap: it has created those, and binding the name of the
next one does not show.
-/

set_option autoImplicit false

namespace Orchestration

namespace Tree

/-- No step has an index behind the end of the vector that it selects from. -/
def Fits (t : Tree) (steps : List Segment) : Prop :=
  ∀ before s after, steps = before ++ s :: after →
    s.index.toNat ≤ ((t.nodeAt before).elements s.name).length

def next (t : Tree) (s : Segment) : Tree := (t.elements s.name)[s.index.toNat]?.getD empty

def put (t : Tree) (s : Segment) (child : Tree) : Tree :=
  t.bind s.name (place (t.elements s.name) s.index.toNat child)

theorem nodeAt_empty (steps : List Segment) : empty.nodeAt steps = empty := by
  cases steps <;> rfl

theorem nodeAt_cons (t : Tree) (s : Segment) (rest : List Segment) :
    t.nodeAt (s :: rest) = (t.next s).nodeAt rest := by
  unfold nodeAt next
  rw [follow?_cons, followIn?]
  cases (t.elements s.name)[s.index.toNat]? with
  | none => exact (nodeAt_empty rest).symm
  | some child => rfl

theorem follow?_next (t : Tree) (s g : Segment) (rest : List Segment) :
    (t.next s).follow? (g :: rest) = t.follow? (s :: g :: rest) := by
  unfold next
  rw [follow?_cons t s, followIn?]
  cases (t.elements s.name)[s.index.toNat]? <;> rfl

/-! ## One step of the descent -/

section Put

variable {t : Tree} {s : Segment} (near : s.index.toNat ≤ (t.elements s.name).length)
include near

theorem follow?_put (child : Tree) (g : Segment) (q : List Segment) :
    (t.put s child).follow? (g :: q) = if g = s then child.follow? q else t.follow? (g :: q) := by
  unfold put
  rw [follow?_cons, follow?_cons, elements_bind]
  by_cases name : s.name = g.name
  · rw [if_pos name, ← name]
    unfold followIn?
    rw [getElem?_place near]
    by_cases index : g.index = s.index
    · rw [if_pos (congrArg _ index), if_pos ((Segment.eq_iff_of_name name).mpr index)]
      rfl
    · rw [if_neg fun same => index (UInt64.toNat_inj.mp same),
        if_neg fun same => index (congrArg _ same)]
  · rw [if_neg name, if_neg fun same => name (congrArg Segment.name same).symm]

theorem nodeAt_put (child : Tree) (g : Segment) (q : List Segment) :
    (t.put s child).nodeAt (g :: q) = if g = s then child.nodeAt q else t.nodeAt (g :: q) := by
  unfold nodeAt
  rw [follow?_put near]
  split <;> rfl

theorem reach_cons_of_near (f : Tree → Tree) (rest : List Segment) :
    reach f (s :: rest) t = ((reach f rest (t.next s)).1, t.put s (reach f rest (t.next s)).2) := by
  rw [reach_cons, reachIn_of_fits f rest near]
  rfl

end Put

theorem reach_cons_of_far (f : Tree → Tree) {t : Tree} {s : Segment} (rest : List Segment)
    (far : (t.elements s.name).length < s.index.toNat) :
    reach f (s :: rest) t = (some ⟨s.index, (t.elements s.name).length⟩, t.touch s.name) := by
  rw [reach_cons]
  unfold reachIn
  rw [if_pos far]
  rfl

theorem fits_nil (t : Tree) : t.Fits [] := by
  intro before s after split
  cases before <;> cases split

theorem fits_cons (t : Tree) (s : Segment) (rest : List Segment) :
    t.Fits (s :: rest) ↔ s.index.toNat ≤ (t.elements s.name).length ∧ (t.next s).Fits rest := by
  constructor
  · intro fits
    refine ⟨fits [] s rest rfl, ?_⟩
    intro before g after split
    rw [← nodeAt_cons]
    exact fits (s :: before) g after (congrArg (s :: ·) split)
  · rintro ⟨near, inner⟩ before g after split
    cases before with
    | nil =>
      cases split
      exact near
    | cons b before =>
      cases split
      rw [nodeAt_cons]
      exact inner before g after rfl

theorem fits_or_gap (steps : List Segment) (t : Tree) :
    t.Fits steps ∨ ∃ before s after, steps = before ++ s :: after ∧ t.Fits before ∧
      ((t.nodeAt before).elements s.name).length < s.index.toNat := by
  induction steps generalizing t with
  | nil => exact .inl t.fits_nil
  | cons s rest ih =>
    by_cases near : s.index.toNat ≤ (t.elements s.name).length
    · rcases ih (t.next s) with fits | ⟨before, g, after, rfl, fits, far⟩
      · exact .inl ((fits_cons ..).mpr ⟨near, fits⟩)
      · rw [← nodeAt_cons] at far
        exact .inr ⟨s :: before, g, after, rfl, (fits_cons ..).mpr ⟨near, fits⟩, far⟩
    · exact .inr ⟨[], s, rest, rfl, t.fits_nil, Nat.lt_of_not_le near⟩

/-! ## The whole descent -/

theorem reach_of_fits (f : Tree → Tree) {steps : List Segment} {t : Tree} (fits : t.Fits steps) :
    (reach f steps t).1 = none ∧
      (reach f steps t).2.follow? steps = some (f (t.nodeAt steps)) := by
  induction steps generalizing t with
  | nil => exact ⟨rfl, rfl⟩
  | cons s rest ih =>
    obtain ⟨near, inner⟩ := (fits_cons ..).mp fits
    rw [reach_cons_of_near near, follow?_put near, if_pos rfl, nodeAt_cons]
    exact ih inner

theorem reach_of_gap (f : Tree → Tree) {before : List Segment} {s : Segment}
    (after : List Segment) {t : Tree} (fits : t.Fits before)
    (far : ((t.nodeAt before).elements s.name).length < s.index.toNat) :
    reach f (before ++ s :: after) t =
      (some ⟨s.index, ((t.nodeAt before).elements s.name).length⟩,
        (reach (touch · s.name) before t).2) := by
  induction before generalizing t with
  | nil => exact reach_cons_of_far f after far
  | cons b before ih =>
    obtain ⟨near, inner⟩ := (fits_cons ..).mp fits
    rw [nodeAt_cons] at far
    rw [List.cons_append, reach_cons_of_near near, reach_cons_of_near near, ih inner far,
      nodeAt_cons]

/-! ## What a creation adds -/

/-- A vector has the values that it has had, and may have got one more element, with no value. -/
def Lengthened (nodes nodes' : List Tree) : Prop :=
  nodes'.map value = nodes.map value ∨ nodes'.map value = nodes.map value ++ [.void]

structure Grown (t t' : Tree) : Prop where
  value : t'.value = t.value
  vectors : ∀ name, Lengthened (t.elements name) (t'.elements name)

theorem Grown.refl (t : Tree) : Grown t t := ⟨rfl, fun _ => .inl rfl⟩

structure Inert (f : Tree → Tree) : Prop where
  value : ∀ t, (f t).value = t.value
  elements : ∀ t name, (f t).elements name = t.elements name

theorem inert_id : Inert id := ⟨fun _ => rfl, fun _ _ => rfl⟩

theorem inert_touch (name : String) : Inert (touch · name) where
  value _ := rfl
  elements t k := by
    show (t.bind name (t.elements name)).elements k = t.elements k
    rw [elements_bind]
    split
    · next same => rw [same]
    · rfl

theorem Inert.follow? {f : Tree → Tree} (inert : Inert f) (t : Tree) (g : Segment)
    (q : List Segment) : (f t).follow? (g :: q) = t.follow? (g :: q) := by
  rw [follow?_cons, follow?_cons, inert.elements]

theorem lengthened_place {nodes : List Tree} {i : Nat} {child : Tree} (near : i ≤ nodes.length)
    (kept : child.value = (nodes[i]?.getD empty).value) :
    Lengthened nodes (place nodes i child) := by
  unfold Lengthened place
  rcases Nat.lt_or_eq_of_le near with inside | rfl
  · left
    rw [List.getElem?_eq_getElem inside, Option.getD_some] at kept
    rw [List.map_append, List.map_cons, kept, ← List.map_cons, ← List.map_append,
      List.getElem_cons_drop, List.take_append_drop]
  · right
    have void : child.value = .void := by
      rw [kept, List.getElem?_eq_none (Nat.le_refl _)]
      rfl
    rw [List.take_length, List.drop_eq_nil_of_le (Nat.le_succ _), List.map_append,
      List.map_singleton, void]

theorem grown_put {t : Tree} {s : Segment} (near : s.index.toNat ≤ (t.elements s.name).length)
    {child : Tree} (kept : child.value = (t.next s).value) : Grown t (t.put s child) where
  value := rfl
  vectors name := by
    unfold put
    rw [elements_bind]
    split
    · next same =>
      rw [← same]
      exact lengthened_place near kept
    · exact .inl rfl

/-- What the steps have lacked has been added, and there is nothing else. -/
structure Reached (steps : List Segment) (t t' : Tree) : Prop where
  leads : ∀ q, (t'.follow? q).isSome ↔ (t.follow? q).isSome ∨ q <+: steps
  grown : ∀ q, Grown (t.nodeAt q) (t'.nodeAt q)

theorem Inert.reached {f : Tree → Tree} (inert : Inert f) (t : Tree) : Reached [] t (f t) where
  leads q := by
    cases q with
    | nil => exact iff_of_true rfl (.inl rfl)
    | cons g q => simp [inert.follow?]
  grown q := by
    cases q with
    | nil =>
      exact ⟨inert.value t, fun name => .inl (congrArg (List.map _) (inert.elements t name))⟩
    | cons g q =>
      unfold nodeAt
      rw [inert.follow?]
      exact .refl _

theorem Reached.put {t : Tree} {s : Segment} (near : s.index.toNat ≤ (t.elements s.name).length)
    {rest : List Segment} {child : Tree} (inner : Reached rest (t.next s) child) :
    Reached (s :: rest) t (t.put s child) where
  leads q := by
    cases q with
    | nil => exact iff_of_true rfl (.inl rfl)
    | cons g q =>
      rw [follow?_put near, List.cons_prefix_cons]
      split
      · next same =>
        subst same
        rw [inner.leads]
        -- the child itself is found even if it is new, and then it is a prefix
        cases q with
        | nil => simp
        | cons b q => simp [follow?_next]
      · next other => simp [other]
  grown q := by
    cases q with
    -- of the child only its value shows in the vector that holds it
    | nil => exact grown_put near (inner.grown []).value
    | cons g q =>
      rw [nodeAt_put near]
      split
      · next same =>
        rw [same, nodeAt_cons]
        exact inner.grown q
      · exact .refl _

theorem reached_of_fits {f : Tree → Tree} (inert : Inert f) {steps : List Segment} {t : Tree}
    (fits : t.Fits steps) : Reached steps t (reach f steps t).2 := by
  induction steps generalizing t with
  | nil => exact inert.reached t
  | cons s rest ih =>
    obtain ⟨near, inner⟩ := (fits_cons ..).mp fits
    rw [reach_cons_of_near near]
    exact .put near (ih inner)

/-! ## Creations -/

theorem create_of_fits {t : Tree} {p : Path} (fits : t.Fits p.segments) :
    t.create p = (.ok (t.nodeAt p.segments), (reach id p.segments t).2) := by
  obtain ⟨done, -⟩ := reach_of_fits id fits
  unfold create update
  generalize reach id p.segments t = answer at *
  obtain ⟨gap, t'⟩ := answer
  cases done
  rfl

theorem create_of_gap {t : Tree} {p : Path} {before : List Segment} {s : Segment}
    {after : List Segment} (steps : p.segments = before ++ s :: after) (fits : t.Fits before)
    (far : ((t.nodeAt before).elements s.name).length < s.index.toNat) :
    t.create p =
      (.error (.indexOutOfRange p.text s.index ((t.nodeAt before).elements s.name).length),
        (reach (touch · s.name) before t).2) := by
  unfold create update
  rw [steps, reach_of_gap id after fits far]

theorem Reached.keeps {steps : List Segment} {t t' : Tree} (reached : Reached steps t t')
    {q : Path} {u : Tree} (found : t.lookup? q = some u) :
    (t'.lookup? q).map value = some u.value := by
  have leads := (reached.leads q.segments).mpr (.inl (Option.isSome_of_eq_some found))
  obtain ⟨u', found'⟩ := Option.isSome_iff_exists.mp leads
  have same := (reached.grown q.segments).value
  have before : t.nodeAt q.segments = u := congrArg (Option.getD · empty) found
  have after : t'.nodeAt q.segments = u' := congrArg (Option.getD · empty) found'
  rw [before, after] at same
  exact (congrArg (Option.map value) found').trans (congrArg some same)

/-- A path can be created exactly if each of its indices is at most the length of the vector that
it selects from. The answer is then the node that the path leads to afterwards, and what a caller
makes of that node is found there; the paths that have come to lead to a node are prefixes of this
one. Otherwise the error tells of the whole path, of the first index that is too large and of the
length of its vector, and the paths that have come to lead to a node are prefixes of the steps
before that index. In both cases what could be found has the value that it has had, and a vector
has got one more element at most, which has no value. -/
theorem path_is_created_without_gaps (t : Tree) (p : Path) :
    let answer := (t.create p).1
    let t' := (t.create p).2
    (t.Fits p.segments ↔ ∃ u, answer = .ok u) ∧
    (∀ u, answer = .ok u →
      t'.lookup? p = some u ∧ (∀ f, (t.update f p).2.lookup? p = some (f u)) ∧
      ∀ q, (t'.lookup? q).isSome ↔ (t.lookup? q).isSome ∨ q.segments <+: p.segments) ∧
    (∀ e, answer = .error e → ∃ before s after, p.segments = before ++ s :: after ∧
      t.Fits before ∧
      let length := ((t.nodeAt before).elements s.name).length
      length < s.index.toNat ∧ e = .indexOutOfRange p.text s.index length ∧
      ∀ q, (t'.lookup? q).isSome ↔ (t.lookup? q).isSome ∨ q.segments <+: before) ∧
    (∀ q u, t.lookup? q = some u → (t'.lookup? q).map value = some u.value) ∧
    ∀ steps name,
      Lengthened ((t.nodeAt steps).elements name) ((t'.nodeAt steps).elements name) := by
  intro answer t'
  rcases t.fits_or_gap p.segments with fits | ⟨before, s, after, steps, fits, far⟩
  · have reached := reached_of_fits inert_id fits
    have created := create_of_fits fits
    have succeeds : answer = _ := congrArg Prod.fst created
    have becomes : t' = (reach id p.segments t).2 := congrArg Prod.snd created
    rw [succeeds, becomes]
    refine ⟨iff_of_true fits ⟨_, rfl⟩, ?_, nofun, fun _ _ => reached.keeps,
      fun steps => (reached.grown steps).vectors⟩
    rintro u ⟨⟩
    exact ⟨(reach_of_fits id fits).2, fun f => (reach_of_fits f fits).2,
      fun q => reached.leads q.segments⟩
  · have reached := reached_of_fits (inert_touch s.name) fits
    have created := create_of_gap steps fits far
    have fails : answer = _ := congrArg Prod.fst created
    have becomes : t' = (reach (touch · s.name) before t).2 := congrArg Prod.snd created
    rw [fails, becomes]
    refine ⟨iff_of_false ?_ nofun, nofun, ?_, fun _ _ => reached.keeps,
      fun steps => (reached.grown steps).vectors⟩
    · intro all
      exact Nat.not_lt_of_le (all before s after steps) far
    · rintro e ⟨⟩
      exact ⟨before, s, after, steps, fits, far, rfl, fun q => reached.leads q.segments⟩

example :
    let item (i : UInt64) : Path := ⟨⟨"order", 0⟩, [⟨"items", i⟩]⟩
    let two := ((empty.create (item 0)).2.create (item 1)).2
    (two.create (item 3)).1 = .error (.indexOutOfRange "order.items[3]" 3 2) ∧
      (two.lookup? (item 1)).isSome = true ∧ (two.lookup? (item 2)).isSome = false := by
  refine ⟨?_, ?_, ?_⟩ <;> rfl

end Tree

end Orchestration
