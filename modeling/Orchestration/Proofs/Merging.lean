import Orchestration.Proofs.Variables
import Orchestration.Session

/-!
# Merging a frame is the same as never opening it

A frame that is opened, written to and merged leaves what the same writes leave without it.
While the frame is open the two environments differ, but the one is what the merge makes of
the other: a name shows the same vector in both, an update makes the same of it, and binding
the name in the frame before the merge or in the frame around after it comes to the same.
-/

set_option autoImplicit false

namespace Orchestration

theorem Tree.overlay_empty (t : Tree) : t.overlay .empty = t := by
  cases t
  rfl

namespace Environment

def Distinct (e : Environment) : Prop := e.current.bindings.children.names.Nodup

theorem distinct_push (e : Environment) (scope : String) : (e.push scope).Distinct := List.nodup_nil

theorem pop?_push (e : Environment) (scope : String) : (e.push scope).pop? true = some e := by
  have unchanged : e.current.bindings.overlay .empty = e.current.bindings := Tree.overlay_empty _
  simp only [push, frames, pop?, if_true, unchanged]

theorem merged_eq {e merged : Environment} (popped : e.pop? true = some merged) :
    ∃ parent outer, e.enclosing = parent :: outer ∧
      merged = ⟨{ parent with bindings := parent.bindings.overlay e.current.bindings }, outer⟩ := by
  unfold pop? at popped
  split at popped
  · cases popped
  · next parent outer enclosing =>
    cases popped
    exact ⟨parent, outer, enclosing, rfl⟩

theorem visible?_merged {e merged : Environment} (distinct : e.Distinct)
    (popped : e.pop? true = some merged) (name : String) :
    merged.visible? name = e.visible? name := by
  obtain ⟨parent, outer, enclosing, rfl⟩ := merged_eq popped
  have overlaid : (parent.bindings.overlay e.current.bindings).child? name =
      (e.current.bindings.child? name).or (parent.bindings.child? name) :=
    Dict.get?_merge _ distinct name
  have around : e.enclosing.findSome? (·.bindings.child? name) =
      (parent.bindings.child? name).or (outer.findSome? (·.bindings.child? name)) := by
    rw [enclosing, List.findSome?_cons]
    cases parent.bindings.child? name <;> rfl
  rw [visible?_eq, visible?_eq, around, overlaid, Option.or_assoc]

theorem lookup?_merged {e merged : Environment} (distinct : e.Distinct)
    (popped : e.pop? true = some merged) (p : Path) : merged.lookup? p = e.lookup? p := by
  rw [lookup?_eq, lookup?_eq, visible?_merged distinct popped]

theorem pop?_bind {e merged : Environment} (distinct : e.Distinct)
    (popped : e.pop? true = some merged) (name : String) (nodes : List Tree) :
    (e.setBindings (e.current.bindings.bind name nodes)).pop? true =
      some (merged.setBindings (merged.current.bindings.bind name nodes)) := by
  obtain ⟨parent, outer, enclosing, rfl⟩ := merged_eq popped
  have bound : parent.bindings.overlay (e.current.bindings.bind name nodes) =
      (parent.bindings.overlay e.current.bindings).bind name nodes :=
    congrArg (Tree.node parent.bindings.value) (Dict.merge_insert _ distinct name nodes)
  simp only [pop?, setBindings, enclosing, if_true, bound]

theorem distinct_update {e : Environment} (distinct : e.Distinct) (f : Tree → Tree) (p : Path) :
    (e.update f p).2.Distinct := by
  rw [update_eq]
  exact Dict.nodup_insert distinct _ _

theorem update_merged {e merged : Environment} (distinct : e.Distinct)
    (popped : e.pop? true = some merged) (f : Tree → Tree) (p : Path) :
    (merged.update f p).1 = (e.update f p).1 ∧
      (e.update f p).2.pop? true = some (merged.update f p).2 := by
  rw [update_eq, update_eq, visible?_merged distinct popped]
  exact ⟨rfl, pop?_bind distinct popped _ _⟩

end Environment

/-! ## Edits -/

inductive Edit where
  | write (path : Path) (value : Value)
  | create (path : Path)
  | push (scope : String)
  | merge

namespace Edit

/-- What a call answers with: an error, or on success the node that a `create` has led to. -/
abbrev Reply := Except StructuralError (Option Tree)

def isUpdate : Edit → Bool
  | .write .. => true
  | .create .. => true
  | _ => false

def reply (p : Path) (gap : Option Tree.Gap) (found : Option Tree) : Reply :=
  match gap with
  | some g => .error (.indexOutOfRange p.text g.index g.length)
  | none => .ok found

def apply : Edit → Environment → Reply × Environment
  | .write p v, e =>
    let (gap, e) := e.write p v
    (reply p gap none, e)
  | .create p, e =>
    let (gap, e) := e.create p
    (reply p gap (e.lookup? p), e)
  | .push scope, e => (.ok none, e.push scope)
  | .merge, e =>
    match e.pop? true with
    | some e => (.ok none, e)
    | none => (.error .scopeUnderflow, e)

def after : List Edit → Environment → Environment
  | [], e => e
  | w :: ws, e => after ws (w.apply e).2

def replies : List Edit → Environment → List (Edit × Reply)
  | [], _ => []
  | w :: ws, e => (w, (w.apply e).1) :: replies ws (w.apply e).2

def framed (scope : String) (ws : List Edit) : List Edit := .push scope :: ws ++ [.merge]

/-- Every frame that the edits push they merge again, and they merge no other one. -/
inductive Balanced : List Edit → Prop
  | nil : Balanced []
  | update {w : Edit} : w.isUpdate = true → Balanced [w]
  | append {ws ws' : List Edit} : Balanced ws → Balanced ws' → Balanced (ws ++ ws')
  | framed {scope : String} {ws : List Edit} : Balanced ws → Balanced (framed scope ws)

theorem after_append (ws ws' : List Edit) (e : Environment) :
    after (ws ++ ws') e = after ws' (after ws e) := by
  induction ws generalizing e with
  | nil => rfl
  | cons w ws ih => exact ih _

theorem replies_append (ws ws' : List Edit) (e : Environment) :
    replies (ws ++ ws') e = replies ws e ++ replies ws' (after ws e) := by
  induction ws generalizing e with
  | nil => rfl
  | cons w ws ih => rw [List.cons_append, replies, ih, replies, after, List.cons_append]

theorem filter_framed (scope : String) (ws : List Edit) :
    (framed scope ws).filter isUpdate = ws.filter isUpdate := by
  simp [framed, isUpdate]

theorem apply_merge {e merged : Environment} (popped : e.pop? true = some merged) :
    Edit.merge.apply e = (.ok none, merged) := by
  simp only [apply, popped]

theorem apply_update_merged {w : Edit} (updates : w.isUpdate = true) {e merged : Environment}
    (distinct : e.Distinct) (popped : e.pop? true = some merged) :
    (w.apply merged).1 = (w.apply e).1 ∧
      (w.apply e).2.pop? true = some (w.apply merged).2 ∧ (w.apply e).2.Distinct := by
  cases w with
  | write p v =>
    obtain ⟨same, popped'⟩ := e.update_merged distinct popped (Tree.setValue v) p
    exact ⟨congrArg (reply p · none) same, popped', e.distinct_update distinct _ p⟩
  | create p =>
    obtain ⟨same, popped'⟩ := e.update_merged distinct popped id p
    have distinct' := e.distinct_update distinct id p
    have found := Environment.lookup?_merged distinct' popped' p
    refine ⟨?_, popped', distinct'⟩
    change reply p (merged.update id p).1 ((merged.update id p).2.lookup? p) = _
    rw [same, found]
    rfl
  | push scope => cases updates
  | merge => cases updates

theorem updates_merged (ws : List Edit) (updates : ∀ w ∈ ws, w.isUpdate = true)
    {e merged : Environment} (distinct : e.Distinct) (popped : e.pop? true = some merged) :
    replies ws merged = replies ws e ∧ (after ws e).pop? true = some (after ws merged) := by
  induction ws generalizing e merged with
  | nil => exact ⟨rfl, popped⟩
  | cons w ws ih =>
    obtain ⟨same, popped', distinct'⟩ := apply_update_merged (updates w (by simp)) distinct popped
    obtain ⟨others, final⟩ := ih (fun v hv => updates v (by simp [hv])) distinct' popped'
    exact ⟨by rw [replies, replies, same, others], final⟩

/-- The edits leave what their updates alone leave, each of the updates has the same reply, and
pushing and merging frames succeeds. -/
structure Traceless (ws : List Edit) (e : Environment) : Prop where
  after : after ws e = after (ws.filter isUpdate) e
  replies : (replies ws e).filter (·.1.isUpdate) = replies (ws.filter isUpdate) e
  frames : ∀ w r, (w, r) ∈ Edit.replies ws e → w.isUpdate = false → r = .ok none

theorem traceless_update {w : Edit} (updates : w.isUpdate = true) (e : Environment) :
    Traceless [w] e where
  after := by simp [updates]
  replies := by simp [Edit.replies, updates]
  frames := by
    intro v r among other
    cases List.mem_singleton.mp among
    rw [updates] at other
    cases other

theorem Traceless.append {ws ws' : List Edit} {e : Environment} (first : Traceless ws e)
    (second : Traceless ws' (Edit.after ws e)) : Traceless (ws ++ ws') e where
  after := by
    rw [List.filter_append, after_append, after_append, second.after, first.after]
  replies := by
    rw [List.filter_append, replies_append, replies_append, List.filter_append, first.replies,
      second.replies, first.after]
  frames := by
    intro w r among other
    rw [replies_append] at among
    rcases List.mem_append.mp among with left | right
    · exact first.frames w r left other
    · exact second.frames w r right other

theorem Traceless.framed {scope : String} {ws : List Edit} {e : Environment}
    (inner : Traceless ws (e.push scope)) : Traceless (Edit.framed scope ws) e := by
  have updates : ∀ w ∈ ws.filter isUpdate, w.isUpdate = true :=
    fun w among => (List.mem_filter.mp among).2
  obtain ⟨same, popped⟩ := updates_merged _ updates (e.distinct_push scope) (e.pop?_push scope)
  rw [← inner.after] at popped
  have merges := apply_merge popped
  have transcript : Edit.replies (Edit.framed scope ws) e =
      (.push scope, .ok none) :: (Edit.replies ws (e.push scope) ++ [(.merge, .ok none)]) := by
    rw [Edit.framed, List.cons_append, Edit.replies, replies_append]
    change _ :: (Edit.replies ws (e.push scope) ++
      [(Edit.merge, (Edit.merge.apply (Edit.after ws (e.push scope))).1)]) = _
    rw [merges]
    rfl
  refine ⟨?_, ?_, ?_⟩
  · rw [filter_framed, Edit.framed, List.cons_append, Edit.after, after_append]
    change (Edit.merge.apply (Edit.after ws (e.push scope))).2 = _
    rw [merges]
  · rw [filter_framed, transcript, same, ← inner.replies]
    simp [isUpdate]
  · intro w r among other
    rw [transcript] at among
    rcases List.mem_cons.mp among with opened | among
    · cases opened
      rfl
    rcases List.mem_append.mp among with inside | closed
    · exact inner.frames w r inside other
    · cases List.mem_singleton.mp closed
      rfl

theorem Balanced.traceless {ws : List Edit} (balanced : Balanced ws) (e : Environment) :
    Traceless ws e := by
  induction balanced generalizing e with
  | nil => exact ⟨rfl, rfl, nofun⟩
  | update updates => exact traceless_update updates e
  | append first second ih ih' => exact (ih e).append (ih' _)
  | framed inner ih => exact (ih _).framed

end Edit

open Edit

/-- Opening a frame, making edits in it that may open and merge further frames, and merging it
leaves what the updates among the edits leave without any frame. Each update has the same reply
in both cases, and no opening or merging fails. -/
theorem merged_frame_leaves_no_trace (e : Environment) (scope : String) (ws : List Edit)
    (balanced : Balanced ws) :
    let plain := ws.filter isUpdate
    after (framed scope ws) e = after plain e ∧
      (replies (framed scope ws) e).filter (·.1.isUpdate) = replies plain e ∧
      ∀ w r, (w, r) ∈ replies (framed scope ws) e → w.isUpdate = false → r = .ok none := by
  intro plain
  have whole : Balanced (framed scope ws) := .framed balanced
  have traceless := whole.traceless e
  have kept := traceless.after
  have answered := traceless.replies
  rw [filter_framed] at kept answered
  exact ⟨kept, answered, traceless.frames⟩

def orderEdits : List Edit :=
  [.write (.root "order") (.str "open")] ++
    framed "line" ([.write ((Path.root "order").join ⟨"item", 3⟩) (.str "pen")] ++
      [.create ((Path.root "order").join ⟨"note", 0⟩)]) ++
    [.write (.root "total") (.str "7")]

theorem order_frames_leave_no_trace :
    Balanced orderEdits ∧
      let plain := orderEdits.filter isUpdate
      after (framed "shop" orderEdits) .initial = after plain .initial ∧
        (replies (framed "shop" orderEdits) .initial).filter (·.1.isUpdate) =
          replies plain .initial ∧
        ∀ w r, (w, r) ∈ replies (framed "shop" orderEdits) .initial → w.isUpdate = false →
          r = .ok none := by
  have balanced : Balanced orderEdits :=
    .append (.append (.update rfl) (.framed (.append (.update rfl) (.update rfl)))) (.update rfl)
  exact ⟨balanced, merged_frame_leaves_no_trace .initial "shop" orderEdits balanced⟩

example : (after (framed "shop" orderEdits) .initial).frames.map (·.bindings.children.names) =
    [["order", "total"]] := by rfl

end Orchestration
