import Mathlib.Data.List.Infix
import Orchestration.Proofs.Folding

/-!
# A scope finds its own compensation only

A compensation is kept under the id of its scope, and ids are used again: one of a finished scope
stays in the table of a frame around it, while another scope opens under the same id. What tells the
two apart is the frame. Its table starts empty, and what finished scopes inside have left in it is
under other ids than its own as long as no two open frames have one id. So a table holds for its own
frame what that frame has installed, and nothing for the frames around it.
-/

set_option autoImplicit false

namespace Orchestration

open Session

inductive Move where
  | push (scope : String)
  | pop (merge : Bool)
  | install (p : Activity)
  | take (scope : String)
  | takeVisible (scope : String)

namespace Session

variable {τ : Type}

theorem takeCompensation?_fst (s : Session τ) (scope : String) :
    (s.takeCompensation? scope).map Prod.fst = s.handlers.compensations.get? scope := by
  unfold takeCompensation? Handlers.takeCompensation?
  rw [Option.map_map, Option.map_map]
  exact Option.map_id' ..

def openIds (s : Session τ) : List String := s.env.frames.map Frame.scope

theorem lt_openIds_iff (s : Session τ) (depth : Nat) :
    depth < s.openIds.length ↔ depth ≤ s.depth := by
  rw [openIds, List.length_map]
  exact Nat.lt_succ_iff

end Session

namespace Move

variable {τ : Type}

def outcome (s : Session τ) : Option (Activity × Session τ) → Option Activity × Session τ
  | some (p, s') => (some p, s')
  | none => (none, s)

variable [Tracer τ]

def apply : Move → Session τ → Option Activity × Session τ
  | .push scope, s => (none, (s.pushScope scope).2)
  | .pop merge, s => (none, (s.popScope merge).2)
  | .install p, s => (none, s.install .this p)
  | .take scope, s => outcome s (s.takeCompensation? scope)
  | .takeVisible scope, s => outcome s (s.takeVisible? scope)

def after : List Move → Session τ → Session τ
  | [], s => s
  | m :: ms, s => after ms (m.apply s).2

/-- The call leaves a compensation alone that the frame at the depth has installed: the frame stays
open and installs no other one, and the compensation is not taken for its id. -/
structure Spares (depth : Nat) (id : String) (p : Activity) (m : Move) (s : Session τ) : Prop where
  stays : depth ≤ (m.apply s).2.depth
  installs : ∀ q, m = .install q → s.depth ≠ depth
  takes : m = .take id ∨ m = .takeVisible id → (m.apply s).1 ≠ some p

/-- One of the calls has installed the compensation while the frame at the depth was current, and
the later ones have left it alone. -/
def Installed (s : Session τ) (ms : List Move) (depth : Nat) (id : String) (p : Activity) : Prop :=
  ∃ earlier later, ms = earlier ++ .install p :: later ∧ (after earlier s).depth = depth ∧
    ∀ before m rest, later = before ++ m :: rest →
      m.Spares depth id p (after (earlier ++ .install p :: before) s)

theorem after_append (ms ms' : List Move) (s : Session τ) :
    after (ms ++ ms') s = after ms' (after ms s) := by
  induction ms generalizing s with
  | nil => rfl
  | cons m ms ih => exact ih _

theorem after_concat (ms : List Move) (m : Move) (s : Session τ) :
    after (ms ++ [m]) s = (m.apply (after ms s)).2 := after_append ..

theorem installed_concat {s : Session τ} {ms : List Move} {m : Move} {depth : Nat} {id : String}
    {p : Activity} : Installed s (ms ++ [m]) depth id p ↔
      m = .install p ∧ (after ms s).depth = depth ∨
        Installed s ms depth id p ∧ m.Spares depth id p (after ms s) := by
  constructor
  · rintro ⟨earlier, later, eq, level, spared⟩
    rcases List.eq_nil_or_concat later with rfl | ⟨later, last, rfl⟩
    · obtain ⟨rfl, last⟩ := List.append_inj' eq rfl
      exact .inl ⟨List.singleton_inj.mp last, level⟩
    · rw [List.concat_eq_append] at eq spared
      rw [← List.cons_append, ← List.append_assoc] at eq
      obtain ⟨rfl, same⟩ := List.append_inj' eq rfl
      cases same
      refine .inr ⟨⟨earlier, later, rfl, level, ?_⟩, spared later m [] rfl⟩
      intro before m' rest split
      exact spared before m' (rest ++ [m]) (by rw [split, List.append_assoc, List.cons_append])
  · rintro (⟨rfl, level⟩ | ⟨⟨earlier, later, rfl, level, spared⟩, last⟩)
    · refine ⟨ms, [], rfl, level, ?_⟩
      intro before m rest split
      simp at split
    · refine ⟨earlier, later ++ [m], by rw [List.append_assoc, List.cons_append], level, ?_⟩
      intro before m' rest split
      rcases List.eq_nil_or_concat rest with rfl | ⟨rest, last', rfl⟩
      · obtain ⟨rfl, same⟩ := List.append_inj' split rfl
        cases same
        exact last
      · rw [List.concat_eq_append, ← List.cons_append, ← List.append_assoc] at split
        obtain ⟨inside, -⟩ := List.append_inj' split rfl
        exact spared before m' rest inside

theorem Installed.depth_le {s : Session τ} {ms : List Move} {depth : Nat} {id : String}
    {p : Activity} (installed : Installed s ms depth id p) : depth ≤ (after ms s).depth := by
  rcases List.eq_nil_or_concat ms with rfl | ⟨ms, m, rfl⟩
  · obtain ⟨earlier, later, eq, -⟩ := installed
    simp at eq
  · rw [List.concat_eq_append] at installed ⊢
    rw [after_concat]
    rcases installed_concat.mp installed with ⟨rfl, level⟩ | ⟨-, spared⟩
    · exact Nat.le_of_eq level.symm
    · exact spared.stays

theorem arises_apply {s : Session τ} (arises : s.Arises) (m : Move) : (m.apply s).2.Arises := by
  cases m with
  | push scope => exact arises.pushScope scope
  | pop merge => exact arises.popScope merge
  | install p => exact arises.install .this p
  | take scope =>
    change (outcome s (s.takeCompensation? scope)).2.Arises
    cases taken : s.takeCompensation? scope with
    | none => exact arises
    | some found => exact arises.takeCompensation taken
  | takeVisible scope =>
    change (outcome s (s.takeVisible? scope)).2.Arises
    cases taken : s.takeVisible? scope with
    | none => exact arises
    | some found => exact arises.takeVisible taken

theorem arises_after {s : Session τ} (arises : s.Arises) (ms : List Move) :
    (after ms s).Arises := by
  induction ms generalizing s with
  | nil => exact arises
  | cons m ms ih => exact ih (arises_apply arises m)

end Move

/-! ## Tables that belong to their frames -/

namespace Handlers

/-- The tables of a stack of frames. Each holds for the id of its frame what is said to be held at
that depth, and nothing for the ids of the frames around. -/
inductive Belong (held : Nat → String → Activity → Prop) : List String → List Handlers → Prop
  | nil : Belong held [] []
  | cons {id : String} {ids : List String} {h : Handlers} {hs : List Handlers} :
      (∀ p, h.compensations.get? id = some p ↔ held ids.length id p) →
      (∀ outer ∈ ids, h.compensations.get? outer = none) →
      Belong held ids hs → Belong held (id :: ids) (h :: hs)

def Remains (held : Nat → String → Activity → Prop) (scope : String) (p : Activity) (depth : Nat)
    (id : String) (q : Activity) : Prop := held depth id q ∧ ¬(scope = id ∧ p = q)

variable {held held' : Nat → String → Activity → Prop} {id : String} {ids : List String}
  {h : Handlers} {hs : List Handlers}

theorem Belong.congr (belong : Belong held ids hs)
    (same : ∀ depth < ids.length, ∀ id ∈ ids, ∀ p, held' depth id p ↔ held depth id p) :
    Belong held' ids hs := by
  induction belong with
  | nil => exact .nil
  | @cons id ids h hs own others _ ih =>
    refine .cons (fun p => ?_) others (ih fun depth below i among => ?_)
    · exact (own p).trans (same _ (Nat.lt_succ_self _) id List.mem_cons_self p).symm
    · exact same depth (Nat.lt_succ_of_lt below) i (List.mem_cons_of_mem _ among)

theorem Belong.install (belong : Belong held (id :: ids) (h :: hs)) (distinct : (id :: ids).Nodup)
    (p : Activity) (now : ∀ q, held' ids.length id q ↔ q = p)
    (same : ∀ depth < ids.length, ∀ id ∈ ids, ∀ q, held' depth id q ↔ held depth id q) :
    Belong held' (id :: ids) (h.install id .this p :: hs) := by
  cases belong with
  | cons own others around =>
    have installed (i : String) : (h.install id .this p).compensations.get? i =
        if id = i then some p else h.compensations.get? i := Dict.get?_insert ..
    refine .cons (fun q => ?_) (fun outer among => ?_) (around.congr same)
    · rw [installed, if_pos rfl, now, Option.some_inj, eq_comm]
    · have other : id ≠ outer := fun eq => (List.nodup_cons.mp distinct).1 (eq ▸ among)
      rw [installed, if_neg other]
      exact others outer among

theorem Belong.merge {parent : Handlers} {parentId : String}
    (belong : Belong held (id :: parentId :: ids) (h :: parent :: hs)) (orderly : h.Orderly) :
    Belong held (parentId :: ids) (parent.absorb h :: hs) := by
  cases belong with
  | cons _ inner around =>
    cases around with
    | cons own others outermost =>
      have absorbed (i : String) (among : i ∈ parentId :: ids) :
          (parent.absorb h).compensations.get? i = parent.compensations.get? i := by
        have merged : (parent.absorb h).compensations.get? i =
            (h.compensations.get? i).or (parent.compensations.get? i) :=
          Dict.get?_merge _ orderly i
        rw [merged, inner i among, Option.none_or]
      refine .cons (fun p => ?_) (fun outer among => ?_) outermost
      · rw [absorbed parentId List.mem_cons_self]
        exact own p
      · rw [absorbed outer (List.mem_cons_of_mem _ among)]
        exact others outer among

theorem Belong.take (belong : Belong held (id :: ids) (h :: hs)) {scope : String} {p : Activity}
    {h' : Handlers} (taken : h.takeCompensation? scope = some (p, h')) :
    Belong (Remains held scope p) (id :: ids) (h' :: hs) := by
  cases belong with
  | cons own others around =>
    obtain ⟨q, found, eq⟩ := Option.map_eq_some_iff.mp taken
    cases eq
    have erased (i : String) : (h.compensations.erase scope).get? i =
        if scope = i then none else h.compensations.get? i := Dict.get?_erase ..
    refine .cons (fun r => ?_) (fun outer among => ?_) (around.congr fun depth _ i among r => ?_)
    · rw [erased, Remains, ← own]
      by_cases same : scope = id
      · subst same
        simp [found]
      · simp [same]
    · rw [erased, others outer among]
      exact ite_self none
    · have other : scope ≠ i := by
        rintro rfl
        cases found.symm.trans (others scope among)
      exact and_iff_left fun again => other again.1

theorem Belong.takeInnermost (belong : Belong held ids hs) {scope : String} {p : Activity}
    {hs' : List Handlers} (taken : takeInnermost? scope hs = some (p, hs')) :
    Belong (Remains held scope p) ids hs' := by
  induction belong generalizing hs' with
  | nil => cases taken
  | @cons id ids h hs own others around ih =>
    rw [takeInnermost?] at taken
    split at taken
    · next q h' found =>
      cases taken
      exact (Belong.cons own others around).take found
    · next missing =>
      obtain ⟨⟨q, hs'⟩, found, eq⟩ := Option.map_eq_some_iff.mp taken
      cases eq
      have absent : h.compensations.get? scope = none := Option.map_eq_none_iff.mp missing
      refine .cons (fun r => ?_) others (ih found)
      rw [Remains, ← own]
      refine ⟨fun holds => ⟨holds, ?_⟩, And.left⟩
      rintro ⟨rfl, -⟩
      cases absent.symm.trans holds

end Handlers

namespace Move

open Handlers

variable {τ : Type} [Tracer τ] {held : Nat → String → Activity → Prop}

def heldAfter (held : Nat → String → Activity → Prop) (m : Move) (s : Session τ) (depth : Nat)
    (id : String) (p : Activity) : Prop :=
  m = .install p ∧ s.depth = depth ∨ held depth id p ∧ m.Spares depth id p s

theorem heldAfter_iff_of_spares {m : Move} {s : Session τ} {depth : Nat} {id : String}
    {p : Activity} (spares : m.Spares depth id p s) :
    heldAfter held m s depth id p ↔ held depth id p := by
  constructor
  · rintro (⟨installs, level⟩ | ⟨before, -⟩)
    · exact absurd level (spares.installs p installs)
    · exact before
  · exact fun before => .inr ⟨before, spares⟩

theorem spares_of_idle {m : Move} {s s' : Session τ} (idle : m.apply s = (none, s'))
    (installs : ∀ p, m ≠ .install p) {depth : Nat} (stays : depth ≤ s'.depth) (id : String)
    (p : Activity) : m.Spares depth id p s := by
  refine ⟨?_, fun q eq => absurd eq (installs q), fun _ => ?_⟩ <;> rw [idle]
  · exact stays
  · exact nofun

theorem belong_idle {m : Move} {s s' : Session τ} (idle : m.apply s = (none, s'))
    (installs : ∀ p, m ≠ .install p) (belong : Belong held s'.openIds s'.tables) :
    Belong (heldAfter held m s) (m.apply s).2.openIds (m.apply s).2.tables := by
  rw [idle]
  refine belong.congr fun depth below id _ p => heldAfter_iff_of_spares ?_
  exact spares_of_idle idle installs ((s'.lt_openIds_iff depth).mp below) id p

theorem belong_taken {m : Move} {s s' : Session τ} {scope : String} {p : Activity}
    (takes : m = .take scope ∨ m = .takeVisible scope) (taken : m.apply s = (some p, s'))
    (belong : Belong (Remains held scope p) s'.openIds s'.tables) :
    Belong (heldAfter held m s) (m.apply s).2.openIds (m.apply s).2.tables := by
  rw [taken]
  refine belong.congr fun depth below id _ q => ?_
  constructor
  · rintro (⟨rfl, -⟩ | ⟨before, spares⟩)
    · simp at takes
    · refine ⟨before, ?_⟩
      rintro ⟨rfl, rfl⟩
      exact spares.takes takes (congrArg Prod.fst taken)
  · rintro ⟨before, other⟩
    refine .inr ⟨before, ?_, ?_, fun again same => ?_⟩
    · rw [taken]
      exact (s'.lt_openIds_iff depth).mp below
    · rintro r rfl
      simp at takes
    · rw [taken] at same
      refine other ⟨?_, Option.some.inj same⟩
      rcases takes with rfl | rfl <;> simpa [eq_comm] using again

theorem belong_closed {s : Session τ} (orderly : s.Orderly) {merge : Bool} {env : Environment}
    (popped : s.env.pop? merge = some env) (belong : Belong held s.openIds s.tables) :
    Belong held (s.closed merge env).openIds (s.closed merge env).tables := by
  have table : s.handlers.Orderly := orderly.tables _ List.mem_cons_self
  rw [openIds, env_closed]
  unfold Environment.pop? at popped
  split at popped
  · cases popped
  · next parent outer around =>
    cases popped
    rw [openIds, Environment.frames, around, tables] at belong
    unfold Session.closed
    cases tables : s.enclosing with
    | nil =>
      rw [tables] at belong
      cases belong with
      | cons _ _ around => cases around
    | cons held rest =>
      rw [tables] at belong
      cases merge with
      | true => exact belong.merge table
      | false =>
        cases belong with
        | cons _ _ around => exact around

theorem belong_push {s : Session τ} {scope : String}
    (opens : (Move.push scope).apply s = (none, s.opened scope))
    (within : ∀ depth id p, held depth id p → depth ≤ s.depth)
    (belong : Belong held s.openIds s.tables) :
    Belong (heldAfter held (.push scope) s) (s.opened scope).openIds (s.opened scope).tables := by
  refine .cons (fun p => ⟨nofun, ?_⟩) (fun outer _ => rfl) ?_
  · rintro (⟨installs, -⟩ | ⟨before, -⟩)
    · cases installs
    · exact absurd ((s.lt_openIds_iff _).mpr (within _ _ _ before)) (Nat.lt_irrefl _)
  · refine belong.congr fun depth below id _ p => heldAfter_iff_of_spares ?_
    have stays : depth ≤ s.depth + 1 := Nat.le_succ_of_le ((s.lt_openIds_iff depth).mp below)
    exact spares_of_idle opens nofun stays id p

theorem belong_install {s : Session τ} (p : Activity) (distinct : s.openIds.Nodup)
    (belong : Belong held s.openIds s.tables) :
    Belong (heldAfter held (.install p) s) (s.install .this p).openIds
      (s.install .this p).tables := by
  have level : s.depth = (s.env.enclosing.map Frame.scope).length := (List.length_map _).symm
  refine Belong.install belong distinct p (fun q => ?_) fun depth below id _ q => ?_
  · constructor
    · rintro (⟨same, -⟩ | ⟨-, spares⟩)
      · cases same
        rfl
      · exact absurd level (spares.installs p rfl)
    · rintro rfl
      exact .inl ⟨rfl, level⟩
  · rw [← level] at below
    exact heldAfter_iff_of_spares
      ⟨Nat.le_of_lt below, fun _ _ => Nat.ne_of_gt below, fun _ => nofun⟩

/-- One call keeps every table with its frame. -/
theorem belong_apply (m : Move) {s : Session τ} (orderly : s.Orderly) (distinct : s.openIds.Nodup)
    (within : ∀ depth id p, held depth id p → depth ≤ s.depth)
    (belong : Belong held s.openIds s.tables) :
    Belong (heldAfter held m s) (m.apply s).2.openIds (m.apply s).2.tables := by
  cases m with
  | push scope =>
    rcases s.pushScope_cases scope with opens | ⟨e, refused⟩
    · have applied : (Move.push scope).apply s = (none, s.opened scope) := by
        rw [apply, opens]
        rfl
      rw [applied]
      exact belong_push applied within belong
    · exact belong_idle (by rw [apply, refused]; rfl) nofun belong
  | pop merge =>
    rcases s.popScope_cases merge with ⟨env, popped, closes⟩ | ⟨-, refused⟩
    · exact belong_idle (by rw [apply, closes]; rfl) nofun (belong_closed orderly popped belong)
    · exact belong_idle (by rw [apply, refused]; rfl) nofun belong
  | install p => exact belong_install p distinct belong
  | take scope =>
    cases taken : s.takeCompensation? scope with
    | none => exact belong_idle (by rw [apply, taken]; rfl) nofun belong
    | some answer =>
      obtain ⟨p, s'⟩ := answer
      have applied : (Move.take scope).apply s = (some p, s') := by
        rw [apply, taken]
        rfl
      obtain ⟨h, found, rfl⟩ := takeCompensation?_eq taken
      exact belong_taken (.inl rfl) applied (belong.take found)
  | takeVisible scope =>
    cases taken : s.takeVisible? scope with
    | none => exact belong_idle (by rw [apply, taken]; rfl) nofun belong
    | some answer =>
      obtain ⟨p, s'⟩ := answer
      have applied : (Move.takeVisible scope).apply s = (some p, s') := by
        rw [apply, taken]
        rfl
      obtain ⟨h, outer, found, rfl⟩ := takeVisible?_eq taken
      exact belong_taken (.inr rfl) applied (belong.takeInnermost found)

theorem belong_after (host : Host) (limits : Option Limits) (tracer : τ) (ms : List Move)
    (distinct : ∀ before, before <+: ms →
      (after before (.start host limits tracer)).openIds.Nodup) :
    Belong (Installed (.start host limits tracer) ms) (after ms (.start host limits tracer)).openIds
      (after ms (.start host limits tracer)).tables := by
  induction ms using List.reverseRecOn with
  | nil =>
    refine .cons (fun p => ⟨nofun, ?_⟩) nofun .nil
    rintro ⟨earlier, later, eq, -⟩
    simp at eq
  | append_singleton ms m ih =>
    have arises := arises_after (.start host limits tracer) ms
    have belong := ih fun before first => distinct before (first.trans (List.prefix_append ms [m]))
    have next := belong_apply m arises.orderly (distinct ms (List.prefix_append ms [m]))
      (fun _ _ _ installed => installed.depth_le) belong
    rw [after_concat]
    exact next.congr fun depth _ id _ p => installed_concat

end Move

open Move

/-- As long as no two open frames have one id, what is taken for the current scope is the
compensation that its frame has installed last, since it was opened, unless that has been taken
before; there is nothing to take otherwise, whatever finished scopes have left under the same id. -/
theorem scope_finds_its_own_compensation (τ : Type) [Tracer τ] (host : Host)
    (limits : Option Limits) (tracer : τ) (ms : List Move)
    (distinct : ∀ before, before <+: ms →
      (after before (.start host limits tracer)).openIds.Nodup) :
    let s := after ms (.start host limits tracer)
    ∀ p, (s.takeCompensation? s.currentScope).map Prod.fst = some p ↔
      Installed (.start host limits tracer) ms s.depth s.currentScope p := by
  intro s p
  have belong : Handlers.Belong _ s.openIds s.tables := belong_after host limits tracer ms distinct
  rw [takeCompensation?_fst]
  cases belong with
  | cons own _ _ =>
    rw [List.length_map] at own
    exact own p

def steps : List Move :=
  [.push "step", .install .nil, .pop true, .push "step", .install .exit, .push "check",
    .take "step", .pop false]

theorem second_step_finds_its_own :
    (∀ before, before <+: steps →
      (after before (.start .standard none ())).openIds.Nodup) ∧
      Installed (.start .standard none ()) steps 1 "step" .exit ∧
      ¬ Installed (.start .standard none ()) steps 1 "step" .nil := by
  have distinct : ∀ before, before <+: steps →
      (after before (.start .standard none ())).openIds.Nodup := by
    have each : ∀ before ∈ steps.inits,
        (after before (.start .standard none ())).openIds.Nodup := by decide
    exact fun before first => each before ((List.mem_inits before steps).mpr first)
  have found := scope_finds_its_own_compensation Unit .standard none () steps distinct
  refine ⟨distinct, (found .exit).mp rfl, fun installed => ?_⟩
  have other : some Activity.exit = some Activity.nil := (found .nil).mpr installed
  cases other

end Orchestration
