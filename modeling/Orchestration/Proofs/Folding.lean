import Orchestration.Proofs.Accounting
import Orchestration.Proofs.Merging

/-!
# Merging a frame hides nothing

When a frame is closed and merged, its bindings and its compensations are folded into the frame and
the table around it. Names and ids are looked for from the inside to the outside, before and after;
an entry of the frame that is closed goes before one of the frame around it in both cases, so the
first hit is the same. That takes a frame and a table in which no name is bound twice, and a table
for each frame: this is what the operations of a session keep.
-/

set_option autoImplicit false

namespace Orchestration

open Engine Session

theorem Dict.nodup_erase {α : Type} {d : Dict α} (distinct : d.names.Nodup) (k : String) :
    (d.erase k).names.Nodup :=
  distinct.sublist (List.filter_sublist.map Prod.fst)

/-! ## Names that are bound once -/

def Environment.Orderly (e : Environment) : Prop :=
  ∀ g ∈ e.frames, g.bindings.children.names.Nodup

namespace Environment.Orderly

theorem push {e : Environment} (orderly : e.Orderly) (scope : String) : (e.push scope).Orderly :=
  List.forall_mem_cons.mpr ⟨List.nodup_nil, orderly⟩

theorem update {e : Environment} (orderly : e.Orderly) (f : Tree → Tree) (p : Path) :
    (e.update f p).2.Orderly := by
  obtain ⟨current, enclosing⟩ := List.forall_mem_cons.mp orderly
  refine List.forall_mem_cons.mpr ⟨e.distinct_update current f p, ?_⟩
  rwa [update_enclosing]

theorem popped {e e' : Environment} {merge : Bool} (orderly : e.Orderly)
    (popped : e.pop? merge = some e') : e'.Orderly := by
  obtain ⟨current, enclosing⟩ := List.forall_mem_cons.mp orderly
  unfold pop? at popped
  split at popped
  · cases popped
  · next parent outer around =>
    cases popped
    rw [around] at enclosing
    obtain ⟨own, outer⟩ := List.forall_mem_cons.mp enclosing
    refine List.forall_mem_cons.mpr ⟨?_, outer⟩
    cases merge with
    | true => exact Dict.nodup_merge own _
    | false => exact own

end Environment.Orderly

namespace Handlers

def Orderly (h : Handlers) : Prop := h.compensations.names.Nodup

theorem Orderly.install {h : Handlers} (orderly : h.Orderly) (scope : String) (target : Target)
    (p : Activity) : (h.install scope target p).Orderly := by
  cases target with
  | fault | default => exact orderly
  | this => exact Dict.nodup_insert orderly scope p

theorem compensations_takeFault? {h h' : Handlers} {name : String} {orFallback : Bool}
    {p : Activity} (taken : h.takeFault? name orFallback = some (p, h')) :
    h'.compensations = h.compensations := by
  unfold takeFault? at taken
  split at taken
  · cases taken
    rfl
  · split at taken
    · obtain ⟨q, -, eq⟩ := Option.map_eq_some_iff.mp taken
      cases eq
      rfl
    · cases taken

theorem Orderly.takeCompensation? {h h' : Handlers} {scope : String} {p : Activity}
    (orderly : h.Orderly) (taken : h.takeCompensation? scope = some (p, h')) : h'.Orderly := by
  obtain ⟨q, -, eq⟩ := Option.map_eq_some_iff.mp taken
  cases eq
  exact Dict.nodup_erase orderly scope

theorem orderly_takeInnermost? {scope : String} {hs hs' : List Handlers} {p : Activity}
    (orderly : ∀ h ∈ hs, h.Orderly) (taken : takeInnermost? scope hs = some (p, hs')) :
    ∀ h ∈ hs', h.Orderly := by
  induction hs generalizing hs' with
  | nil => cases taken
  | cons h outer ih =>
    obtain ⟨own, rest⟩ := List.forall_mem_cons.mp orderly
    rw [takeInnermost?] at taken
    split at taken
    · next q h' found =>
      cases taken
      exact List.forall_mem_cons.mpr ⟨own.takeCompensation? found, rest⟩
    · obtain ⟨⟨q, outer'⟩, found, eq⟩ := Option.map_eq_some_iff.mp taken
      cases eq
      exact List.forall_mem_cons.mpr ⟨own, ih rest found⟩

theorem Orderly.absorb {h : Handlers} (orderly : h.Orderly) (closed : Handlers) :
    (h.absorb closed).Orderly := Dict.nodup_merge orderly _

end Handlers

namespace Session

variable {τ : Type}

/-- There is a table for each frame, and neither binds a name twice. -/
structure Orderly (s : Session τ) : Prop where
  inStep : s.InStep
  frames : s.env.Orderly
  tables : ∀ h ∈ s.tables, h.Orderly

variable [Tracer τ]

theorem Orderly.closed {s : Session τ} {merge : Bool} {env : Environment} (orderly : s.Orderly)
    (popped : s.env.pop? merge = some env) : (s.closed merge env).Orderly where
  inStep := inStep_closed popped orderly.inStep
  frames := by
    rw [env_closed]
    exact orderly.frames.popped popped
  tables := by
    obtain ⟨own, enclosing⟩ := List.forall_mem_cons.mp orderly.tables
    unfold Session.closed
    cases around : s.enclosing with
    | nil => exact List.forall_mem_singleton.mpr own
    | cons parent outer =>
      rw [around] at enclosing
      obtain ⟨held, rest⟩ := List.forall_mem_cons.mp enclosing
      refine List.forall_mem_cons.mpr ⟨?_, rest⟩
      cases merge with
      | true => exact held.absorb _
      | false => exact held

/-- Operations have made the session of a fresh one. The variables may be changed in any way at the
end of a path; a write is one of these ways. -/
inductive Arises : Session τ → Prop
  | start (host : Host) (limits : Option Limits) (tracer : τ) : Arises (.start host limits tracer)
  | step {s : Session τ} : Arises s → Arises s.step.2
  | update {s : Session τ} (f : Tree → Tree) (p : Path) : Arises s →
      Arises { s with env := (s.env.update f p).2 }
  | offer {s : Session τ} (call : Call) : Arises s → Arises (s.offer call).2
  | kill {s : Session τ} (f : Fault) : Arises s → Arises (s.kill f)
  | clearKill {s : Session τ} : Arises s → Arises s.clearKill
  | install {s : Session τ} (target : Target) (p : Activity) : Arises s →
      Arises (s.install target p)
  | takeHandler {s s' : Session τ} {name : String} {orFallback : Bool} {p : Activity} :
      Arises s → s.takeHandler? name orFallback = some (p, s') → Arises s'
  | takeCompensation {s s' : Session τ} {scope : String} {p : Activity} :
      Arises s → s.takeCompensation? scope = some (p, s') → Arises s'
  | takeVisible {s s' : Session τ} {scope : String} {p : Activity} :
      Arises s → s.takeVisible? scope = some (p, s') → Arises s'
  | observe {s : Session τ} (e : Event) : Arises s → Arises (s.observe e)
  | pushScope {s : Session τ} (scope : String) : Arises s → Arises (s.pushScope scope).2
  | popScope {s : Session τ} (merge : Bool) : Arises s → Arises (s.popScope merge).2

theorem Arises.write {s : Session τ} (arises : s.Arises) (p : Path) (v : Value) :
    (s.write p v).2.Arises := by
  rw [write_snd]
  exact arises.update (Tree.setValue v) p

theorem kept_arises : Kept fun s s' : Session τ => s.Arises → s'.Arises where
  refl _ := id
  trans first second arises := second (first arises)
  step _ := .step
  write _ p v arises := arises.write p v
  offer _ call := .offer call
  kill _ f := .kill f
  clearKill _ := .clearKill
  install _ target p := .install target p
  takeHandler taken arises := .takeHandler arises taken
  takeCompensation taken arises := .takeCompensation arises taken
  takeVisible taken arises := .takeVisible arises taken
  observe _ e := .observe e
  pushScope _ scope := .pushScope scope
  popScope _ merge := .popScope merge

theorem Arises.yields {w : Work} {s : Session τ} {starts : List (Start τ)} {v : Verdict}
    {r : Answer τ Unit} (arises : s.Arises) (h : Yields w s starts v r) :
    r.2.Arises ∧ ∀ x ∈ starts, x.session.Arises :=
  ⟨kept_arises.yields h arises, fun x among => kept_arises.begins h x among arises⟩

theorem Reachable.arises {s : Session τ} (reachable : s.Reachable) : s.Arises := by
  induction reachable with
  | start host limits tracer => exact .start host limits tracer
  | @run s p _ ih =>
    obtain ⟨starts, derivation⟩ := run_yields p s
    exact (ih.yields derivation).1
  | pushScope scope _ ih => exact ih.pushScope scope
  | popScope merge _ ih => exact ih.popScope merge
  | install target p _ ih => exact ih.install target p
  | takeHandler _ taken ih => exact ih.takeHandler taken
  | takeCompensation _ taken ih => exact ih.takeCompensation taken
  | takeVisible _ taken ih => exact ih.takeVisible taken
  | kill f _ ih => exact ih.kill f
  | clearKill _ ih => exact ih.clearKill
  | @deliver s f _ ih =>
    rw [deliver_eq]
    exact kept_arises.delivered s f ih

theorem Arises.orderly {s : Session τ} (arises : s.Arises) : s.Orderly := by
  induction arises with
  | start =>
    exact ⟨rfl, List.forall_mem_singleton.mpr List.nodup_nil,
      List.forall_mem_singleton.mpr List.nodup_nil⟩
  | @step s _ ih =>
    rw [step_snd]
    exact ⟨ih.inStep, ih.frames, ih.tables⟩
  | @update s f p _ ih =>
    exact ⟨inStep_of_eq (s := s) rfl (s.env.update_enclosing f p) ih.inStep, ih.frames.update f p,
      ih.tables⟩
  | @offer s call _ ih =>
    obtain ⟨output, eq⟩ := s.offer_snd call
    rw [eq]
    exact ⟨ih.inStep, ih.frames, ih.tables⟩
  | kill | clearKill | observe =>
    next ih => exact ⟨ih.inStep, ih.frames, ih.tables⟩
  | install target p _ ih =>
    obtain ⟨own, enclosing⟩ := List.forall_mem_cons.mp ih.tables
    exact ⟨ih.inStep, ih.frames, List.forall_mem_cons.mpr ⟨own.install _ target p, enclosing⟩⟩
  | takeHandler _ taken ih =>
    obtain ⟨h, found, rfl⟩ := takeHandler?_eq taken
    obtain ⟨own, enclosing⟩ := List.forall_mem_cons.mp ih.tables
    refine ⟨ih.inStep, ih.frames, List.forall_mem_cons.mpr ⟨?_, enclosing⟩⟩
    rwa [Handlers.Orderly, Handlers.compensations_takeFault? found]
  | takeCompensation _ taken ih =>
    obtain ⟨h, found, rfl⟩ := takeCompensation?_eq taken
    obtain ⟨own, enclosing⟩ := List.forall_mem_cons.mp ih.tables
    exact ⟨ih.inStep, ih.frames,
      List.forall_mem_cons.mpr ⟨own.takeCompensation? found, enclosing⟩⟩
  | takeVisible _ taken ih =>
    have inStep := kept_inStep.takeVisible taken ih.inStep
    obtain ⟨h, outer, found, rfl⟩ := takeVisible?_eq taken
    exact ⟨inStep, ih.frames, Handlers.orderly_takeInnermost? ih.tables found⟩
  | @pushScope s scope _ ih =>
    have inStep := kept_inStep.pushScope s scope ih.inStep
    rcases s.pushScope_cases scope with eq | ⟨e, eq⟩ <;> rw [eq] at inStep ⊢
    · exact ⟨inStep, ih.frames.push scope, List.forall_mem_cons.mpr ⟨List.nodup_nil, ih.tables⟩⟩
    · exact ih
  | @popScope s merge _ ih =>
    rcases s.popScope_cases merge with ⟨env, popped, eq⟩ | ⟨-, eq⟩ <;> rw [eq]
    · exact ih.closed popped
    · exact ih

end Session

/-! ## What can be taken -/

namespace Handlers

/-- The compensation of a scope that the innermost of the tables holds which hold one. -/
def visible? (scope : String) (hs : List Handlers) : Option Activity :=
  hs.findSome? (·.compensations.get? scope)

theorem visible?_cons (scope : String) (h : Handlers) (outer : List Handlers) :
    visible? scope (h :: outer) =
      (h.compensations.get? scope).or (visible? scope outer) := by
  unfold visible?
  rw [List.findSome?_cons]
  cases h.compensations.get? scope <;> rfl

theorem takeInnermost?_fst (scope : String) (hs : List Handlers) :
    (takeInnermost? scope hs).map Prod.fst = visible? scope hs := by
  induction hs with
  | nil => rfl
  | cons h outer ih =>
    rw [visible?_cons, takeInnermost?, takeCompensation?]
    cases h.compensations.get? scope with
    | some p => rfl
    | none =>
      rw [Option.map_none, Option.none_or, ← ih]
      exact Option.map_map ..

/-- Of a table and the one around it, an entry of the first goes before one of the second also where
the two are one. -/
theorem visible?_absorb (scope : String) {h : Handlers} (orderly : h.Orderly) (parent : Handlers)
    (outer : List Handlers) :
    visible? scope (parent.absorb h :: outer) = visible? scope (h :: parent :: outer) := by
  have absorbed : (parent.absorb h).compensations.get? scope =
      (h.compensations.get? scope).or (parent.compensations.get? scope) :=
    Dict.get?_merge _ orderly scope
  rw [visible?_cons, visible?_cons, visible?_cons, absorbed, Option.or_assoc]

theorem takeFault?_fst_congr {h h' : Handlers} (faults : h'.faults = h.faults)
    (fallback : h'.fallback = h.fallback) (name : String) (orFallback : Bool) :
    (h'.takeFault? name orFallback).map Prod.fst = (h.takeFault? name orFallback).map Prod.fst := by
  unfold takeFault?
  rw [faults, fallback]
  cases h.faults.get? name with
  | some p => rfl
  | none => cases orFallback <;> cases h.fallback <;> rfl

end Handlers

namespace Session

variable {τ : Type}

theorem takeVisible?_fst (s : Session τ) (scope : String) :
    (s.takeVisible? scope).map Prod.fst = Handlers.visible? scope s.tables := by
  rw [← Handlers.takeInnermost?_fst]
  unfold takeVisible?
  cases found : Handlers.takeInnermost? scope s.tables with
  | none => rfl
  | some taken =>
    obtain ⟨p, hs⟩ := taken
    cases Handlers.consumed_takeInnermost? found with
    | cons => rfl

theorem hasCompensation_eq (s : Session τ) (scope : String) :
    s.hasCompensation scope = (Handlers.visible? scope s.tables).isSome := by
  unfold hasCompensation Handlers.visible?
  rw [List.isSome_findSome?]
  rfl

theorem takeHandler?_fst (s : Session τ) (name : String) (orFallback : Bool) :
    (s.takeHandler? name orFallback).map Prod.fst =
      (s.handlers.takeFault? name orFallback).map Prod.fst := Option.map_map ..

variable [Tracer τ]

theorem Orderly.merges {s : Session τ} (orderly : s.Orderly) (nested : 0 < s.depth) :
    ∃ env parent outer, s.env.pop? true = some env ∧ s.enclosing = parent :: outer ∧
      (s.closed true env).tables = parent.absorb s.handlers :: outer := by
  have frames : s.env.enclosing.length ≠ 0 := Nat.ne_of_gt nested
  have tables : s.enclosing.length = s.env.enclosing.length := Nat.succ.inj orderly.inStep
  obtain ⟨frame, inner, around⟩ := List.exists_cons_of_length_pos (Nat.pos_of_ne_zero frames)
  obtain ⟨parent, outer, enclosing⟩ :=
    List.exists_cons_of_length_pos (Nat.pos_of_ne_zero (tables ▸ frames))
  refine ⟨_, parent, outer, by rw [Environment.pop?, around], enclosing, ?_⟩
  simp only [Session.closed, enclosing]
  rfl

end Session

/-! ## The main result -/

/-- A merging pop of an open frame succeeds. Every path leads to the same node as before or still to
none, for every scope the same compensation is found, and the same request is pending. The tables
that are left hold the handlers that they have held, so those of the closed frame are gone: what can
be taken next is what the frame around has to offer. -/
theorem merging_pop_hides_nothing (τ : Type) [Tracer τ] (s : Session τ) (arises : s.Arises)
    (nested : 0 < s.depth) :
    ∃ s', s.popScope true = (.ok (), s') ∧ s'.depth + 1 = s.depth ∧
      (∀ p, s'.env.lookup? p = s.env.lookup? p) ∧
      (∀ id, (s'.takeVisible? id).map Prod.fst = (s.takeVisible? id).map Prod.fst) ∧
      (∀ id, s'.hasCompensation id = s.hasCompensation id) ∧
      s'.pending = s.pending ∧
      s'.tables.map (fun h => (h.faults, h.fallback)) =
        s.enclosing.map (fun h => (h.faults, h.fallback)) ∧
      ∀ name orFallback, (s'.takeHandler? name orFallback).map Prod.fst =
        (s.enclosing.head?.bind (·.takeFault? name orFallback)).map Prod.fst := by
  have orderly := arises.orderly
  obtain ⟨env, parent, outer, popped, enclosing, left⟩ := orderly.merges nested
  have own : s.env.Distinct := orderly.frames _ List.mem_cons_self
  have table : s.handlers.Orderly := orderly.tables _ List.mem_cons_self
  have visible (id : String) : Handlers.visible? id (s.closed true env).tables =
      Handlers.visible? id s.tables := by
    rw [left, Handlers.visible?_absorb id table, Session.tables, enclosing]
  refine ⟨s.closed true env, popScope_of_popped popped, ?_, ?_, ?_, ?_, ?_, ?_, ?_⟩
  · obtain ⟨frame, inner, around, rfl⟩ := Environment.merged_eq popped
    rw [Session.depth, env_closed, Session.depth, Environment.depth, Environment.depth, around]
    rfl
  · intro p
    rw [env_closed]
    exact Environment.lookup?_merged own popped p
  · intro id
    rw [takeVisible?_fst, takeVisible?_fst, visible]
  · intro id
    rw [hasCompensation_eq, hasCompensation_eq, visible]
  · obtain ⟨handlers, tables, tracer, eq⟩ := s.closed_eq true env
    rw [eq]
  · rw [left, enclosing]
    rfl
  · intro name orFallback
    rw [takeHandler?_fst, enclosing]
    obtain ⟨same, -⟩ := List.cons.inj left
    rw [same]
    show _ = (parent.takeFault? name orFallback).map Prod.fst
    refine Handlers.takeFault?_fst_congr ?_ ?_ name orFallback <;> rfl

/-- A basket with a line in it, each with a compensation and with a handler for lost parcels of its
own; the line has overwritten the total. -/
def basket : Session Unit :=
  let opened := ((Session.start .standard none ()).pushScope "basket").2
  let guarded := (opened.install .this .nil).install (.fault "Lost") .nil
  let inside := ((guarded.write (.root "total") (.int 1)).2.pushScope "line").2
  (((inside.install .this .exit).install (.fault "Lost") .exit).write (.root "total") (.int 2)).2

theorem basket_line_is_handed_on :
    basket.Arises ∧ 0 < basket.depth ∧
      ∃ s', basket.popScope true = (.ok (), s') ∧ s'.depth = 1 ∧
        s'.env.value (.root "total") = .int 2 ∧
        (s'.takeVisible? "line").map Prod.fst = some .exit ∧
        (s'.takeVisible? "basket").map Prod.fst = some .nil ∧
        s'.hasCompensation "shop" = false ∧ s'.pending = none ∧
        (s'.takeHandler? "Lost" true).map Prod.fst = some .nil := by
  have opened := (Arises.start .standard none ()).pushScope "basket"
  have guarded := (opened.install .this .nil).install (.fault "Lost") .nil
  have inside := (guarded.write (.root "total") (.int 1)).pushScope "line"
  have arises : basket.Arises :=
    ((inside.install .this .exit).install (.fault "Lost") .exit).write (.root "total") (.int 2)
  have nested : 0 < basket.depth := Nat.succ_pos 1
  obtain ⟨s', pops, depth, lookup, visible, has, pending, -, next⟩ :=
    merging_pop_hides_nothing Unit basket arises nested
  refine ⟨arises, nested, s', pops, Nat.succ.inj depth, ?_, ?_, ?_, ?_, ?_, ?_⟩
  · rw [Environment.value, lookup]
    rfl
  · rw [visible]
    rfl
  · rw [visible]
    rfl
  · rw [has]
    rfl
  · rw [pending]
    rfl
  · rw [next]
    rfl

end Orchestration
