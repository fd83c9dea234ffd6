import Mathlib.Data.Finset.Card
import Mathlib.Data.Finset.Dedup
import Mathlib.Data.List.Dedup
import Orchestration.Proofs.Nesting

/-!
# Handlers that pass a fault on

A handler that throws passes the fault that it has taken on as another one, which goes through the
same table. The table gives each of its handlers away once, so the chain ends even where the
handlers throw in a circle. The walk of a fault through the handlers is defined without sessions:
it strikes out each handler that it comes to. A scope that has installed the handlers
dispatches the faults of the walk and raises the one at which the walk ends.
-/

set_option autoImplicit false

namespace Orchestration

open Engine Session

/-- A handler that throws a fault, for the faults of a name or, without one, as the fallback. -/
structure Relay where
  name? : Option String
  thrown : Fault
  deriving DecidableEq, Repr

namespace Relay

def targetOf : Option String → Target
  | some name => .fault name
  | none => .default

def handler (r : Relay) : Activity := .throw r.thrown.name (some (.literal r.thrown.payload))

def entry (r : Relay) : Target × Activity := (targetOf r.name?, r.handler)

theorem targetOf_inj {n m : Option String} : targetOf n = targetOf m ↔ n = m := by
  cases n <;> cases m <;> simp [targetOf]

end Relay

/-! ## The walk of a fault -/

def lastFor (relays : List Relay) (name? : Option String) : Option Relay :=
  relays.reverse.find? (·.name? = name?)

def taker? (relays : List Relay) (name : String) : Option Relay :=
  (lastFor relays (some name)).or (lastFor relays none)

def strike (relays : List Relay) (name? : Option String) : List Relay :=
  relays.filter (·.name? ≠ name?)

theorem of_lastFor {relays : List Relay} {name? : Option String} {r : Relay}
    (last : lastFor relays name? = some r) : r ∈ relays ∧ r.name? = name? := by
  refine ⟨List.mem_reverse.mp (List.mem_of_find?_eq_some last), ?_⟩
  simpa using List.find?_some last

theorem lastFor_strike (relays : List Relay) (name? other? : Option String) :
    lastFor (strike relays name?) other? =
      if name? = other? then none else lastFor relays other? := by
  unfold lastFor strike
  rw [← List.filter_reverse, List.find?_filter]
  split
  · next same =>
    rw [List.find?_eq_none]
    intro r _
    simp [same]
  · next apart =>
    congr 1
    funext r
    by_cases own : r.name? = other?
    · simp [own, Ne.symm apart]
    · simp [own]

theorem mem_of_taker? {relays : List Relay} {name : String} {r : Relay}
    (taken : taker? relays name = some r) : r ∈ relays := by
  rcases Option.or_eq_some_iff.mp taken with own | ⟨-, fallback⟩
  · exact (of_lastFor own).1
  · exact (of_lastFor fallback).1

theorem length_strike_lt {relays : List Relay} {r : Relay} (among : r ∈ relays) :
    (strike relays r.name?).length < relays.length := by
  refine List.length_filter_lt_length_iff_exists.mpr ⟨r, among, ?_⟩
  simp

/-- The faults that relays take on the way of a fault, each relay struck out as it takes one, and
the fault that none is left for. -/
def walk (relays : List Relay) (f : Fault) : List Fault × Fault :=
  match _ : taker? relays f.name with
  | none => ([], f)
  | some r =>
    let onward := walk (strike relays r.name?) r.thrown
    (f :: onward.1, onward.2)
termination_by relays.length
decreasing_by exact length_strike_lt (mem_of_taker? ‹_›)

theorem walk_of_none {relays : List Relay} {f : Fault} (none : taker? relays f.name = .none) :
    walk relays f = ([], f) := by
  rw [walk]
  split
  · rfl
  · next taken => cases none.symm.trans taken

theorem walk_of_some {relays : List Relay} {f : Fault} {r : Relay}
    (taken : taker? relays f.name = some r) :
    walk relays f = (f :: (walk (strike relays r.name?) r.thrown).1,
      (walk (strike relays r.name?) r.thrown).2) := by
  rw [walk]
  split
  · next none => cases taken.symm.trans none
  · next taken' =>
    cases taken.symm.trans taken'
    rfl

/-! ## How long a walk is -/

def targets (relays : List Relay) : Finset (Option String) := (relays.map Relay.name?).toFinset

theorem targets_strike (relays : List Relay) (name? : Option String) :
    targets (strike relays name?) = (targets relays).erase name? := by
  ext other?
  simp only [targets, strike, List.mem_toFinset, List.mem_map, List.mem_filter, Finset.mem_erase]
  constructor
  · rintro ⟨r, ⟨among, apart⟩, rfl⟩
    exact ⟨by simpa using apart, r, among, rfl⟩
  · rintro ⟨apart, r, among, rfl⟩
    exact ⟨r, ⟨among, by simpa using apart⟩, rfl⟩

theorem length_walk_le_targets (relays : List Relay) (f : Fault) :
    (walk relays f).1.length ≤ (targets relays).card := by
  induction relays, f using walk.induct with
  | case1 relays f none =>
    rw [walk_of_none none]
    exact Nat.zero_le _
  | case2 relays f r taken ih =>
    have among : r.name? ∈ targets relays :=
      List.mem_toFinset.mpr (List.mem_map_of_mem (mem_of_taker? taken))
    rw [targets_strike, Finset.card_erase_of_mem among] at ih
    have some : 0 < (targets relays).card := Finset.card_pos.mpr ⟨_, among⟩
    rw [walk_of_some taken, List.length_cons]
    omega

theorem card_targets_le (relays : List Relay) :
    (targets relays).card ≤ (relays.filterMap Relay.name?).dedup.length + 1 := by
  have within : targets relays ⊆
      insert none ((relays.filterMap Relay.name?).toFinset.image some) := by
    intro name? among
    obtain ⟨r, listed, rfl⟩ := List.mem_map.mp (List.mem_toFinset.mp among)
    cases own : r.name? with
    | none => exact Finset.mem_insert_self ..
    | some name =>
      refine Finset.mem_insert_of_mem (Finset.mem_image_of_mem _ (List.mem_toFinset.mpr ?_))
      exact List.mem_filterMap.mpr ⟨r, listed, own⟩
  calc (targets relays).card
      ≤ (insert none ((relays.filterMap Relay.name?).toFinset.image some)).card :=
        Finset.card_le_card within
    _ ≤ ((relays.filterMap Relay.name?).toFinset.image some).card + 1 := Finset.card_insert_le ..
    _ ≤ (relays.filterMap Relay.name?).toFinset.card + 1 :=
        Nat.add_le_add_right Finset.card_image_le 1
    _ = (relays.filterMap Relay.name?).dedup.length + 1 := by rw [List.card_toFinset]

/-! ## The table of the relays -/

theorem lastOf_entry (relays : List Relay) (name? : Option String) :
    lastOf (relays.map Relay.entry) (Relay.targetOf name?) =
      (lastFor relays name?).map Relay.handler := by
  have same : ((fun e => decide (e.1 = Relay.targetOf name?)) ∘ Relay.entry) =
      fun r => decide (r.name? = name?) := by
    funext r
    simp [Relay.entry, Relay.targetOf_inj]
  unfold lastOf lastFor
  rw [← List.map_reverse, List.find?_map, same, Option.map_map]
  rfl

namespace Handlers

/-- For the faults of any name, and as its fallback, the table holds the last of the relays. -/
def Holds (h : Handlers) (scope : String) (relays : List Relay) : Prop :=
  ∀ name?, h.held scope (Relay.targetOf name?) = (lastFor relays name?).map Relay.handler

theorem holds_installAll (scope : String) (relays : List Relay) :
    (empty.installAll scope (relays.map Relay.entry)).Holds scope relays := by
  intro name?
  have bare : empty.held scope (Relay.targetOf name?) = none := by cases name? <;> rfl
  rw [held_installAll, lastOf_entry, bare, Option.or_none]

variable {h : Handlers} {scope : String} {relays : List Relay} {name : String}

theorem Holds.takeFault?_of_none (holds : h.Holds scope relays)
    (none : taker? relays name = .none) : h.takeFault? name true = .none := by
  obtain ⟨own, fallback⟩ := Option.or_eq_none_iff.mp none
  have exact := holds (some name)
  have standIn := holds .none
  rw [own] at exact
  rw [fallback] at standIn
  refine Handlers.takeFault?_of_none scope ?_
  exact Option.or_eq_none_iff.mpr ⟨exact, standIn⟩

theorem Holds.takeFault?_of_some (holds : h.Holds scope relays) {r : Relay}
    (taken : taker? relays name = some r) :
    ∃ h', h.takeFault? name true = some (r.handler, h') ∧
      h'.Holds scope (strike relays r.name?) := by
  have exact : h.faults.get? name = (lastFor relays (some name)).map Relay.handler :=
    holds (some name)
  have standIn : h.fallback = (lastFor relays none).map Relay.handler := holds none
  unfold takeFault?
  rcases Option.or_eq_some_iff.mp taken with own | ⟨bare, fallback⟩
  · rw [exact, own, (of_lastFor own).2]
    refine ⟨_, rfl, ?_⟩
    intro other?
    rw [lastFor_strike]
    cases other? with
    | none => exact standIn
    | some other =>
      have before : h.faults.get? other = (lastFor relays (some other)).map Relay.handler :=
        holds (some other)
      show (h.faults.erase name).get? other = _
      rw [Dict.get?_erase, before]
      by_cases same : name = other <;> simp [same]
  · rw [exact, bare, standIn, fallback, (of_lastFor fallback).2]
    refine ⟨_, rfl, ?_⟩
    intro other?
    rw [lastFor_strike]
    cases other? with
    | none => rfl
    | some other => exact holds (some other)

end Handlers

/-! ## A scope that has installed the relays -/

namespace Session

variable {τ : Type}

def Allows (s : Session τ) (n : Nat) : Prop :=
  ∀ k < n, refusal? { s with steps := s.steps + k } = none

theorem Allows.after {s s' : Session τ} {n m : Nat} (allows : s.Allows (m + n))
    (host : s'.host = s.host) (limits : s'.limits = s.limits) (steps : s'.steps = s.steps + m) :
    s'.Allows n := by
  intro k below
  have passes := allows (m + k) (Nat.add_lt_add_left below m)
  unfold refusal? effectiveLimits at passes ⊢
  simp only [host, limits, steps, ← Nat.add_assoc] at passes ⊢
  exact passes

end Session

namespace Engine

variable {τ : Type} [Tracer τ]

theorem Yields.of_atomic {p : Activity} {s : Session τ} {r : Answer τ Unit}
    (passes : s.refusal? = none) (atom : atomic? p s.ticked = some r) :
    Yields (.run p) s [⟨.run p, s⟩, ⟨.perform p, s.ticked⟩] .clear r :=
  .stepped (step_of_passed passes) (.atomic atom)

theorem Yields.settle_of_walk (role : Role) {relays : List Relay} {f : Fault} {id : String}
    {p : Activity} {s s₁ : Session τ} {starts : List (Start τ)}
    (body : Yields (.run p) s starts .clear (.error (.fault f), s₁))
    (holds : s₁.handlers.Holds id relays) (own : s₁.currentScope = id)
    (allows : s₁.Allows (walk relays f).1.length) :
    ∃ starts' s', Yields (.settle role id p) s starts' ⟨true, some (walk relays f).2⟩ (.ok (), s') ∧
      s₁.Logs ((walk relays f).1.map (fun g => .faultDispatch id g.name) ++
        [.faultCaptured id (walk relays f).2.name]) s' ∧ Stands s₁ 0 s' := by
  -- By induction on the walk: what a scope makes of a fault where its table holds the relays.
  induction relays, f using walk.induct generalizing role p s s₁ starts with
  | case1 relays f none =>
    rw [walk_of_none none]
    have untaken : s₁.takeHandler? f.name true = .none :=
      Option.map_eq_none_iff.mpr (holds.takeFault?_of_none none)
    subst own
    exact ⟨_, _, .captured body untaken, s₁.logs_observe _, s₁.stands_observe _⟩
  | case2 relays f r taken ih =>
    rw [walk_of_some taken] at allows ⊢
    obtain ⟨h, found, left⟩ := holds.takeFault?_of_some taken
    have took : s₁.takeHandler? f.name true = some (r.handler, { s₁ with handlers := h }) := by
      rw [takeHandler?, found]
      rfl
    let dispatched := ({ s₁ with handlers := h }.delivered f).observe
      (.faultDispatch s₁.currentScope f.name)
    -- The handler throws at once, in the same frame, so its fault is settled as that of the body is.
    have passes : dispatched.refusal? = none := allows 0 (Nat.succ_pos _)
    have handler : Yields (.run r.handler) dispatched _ .clear
        (.error (.fault r.thrown), dispatched.ticked) := .of_atomic passes rfl
    have dispatching : Stands s₁ 0 dispatched := stands_handling took _
    have stands : Stands s₁ 0 dispatched.ticked := dispatching.then (stands_of_eq rfl rfl rfl)
    rw [List.length_cons, Nat.add_comm] at allows
    subst own
    obtain ⟨starts', s', handling, logs, stands'⟩ := ih .handler handler left
      stands.currentScope (allows.after rfl rfl rfl)
    exact ⟨_, s', .dispatched body took handling, logs_handling took logs, stands.then stands'⟩

theorem Yields.throwing (id : String) (hs : List (Target × Activity)) (name : String)
    (payload : Option Expr) {s : Session τ} (allows : s.Allows 3) (quiet : s.pending = none) :
    ∃ starts, Yields (.run (.sequence [.install hs, .throw name payload])) (s.opened id) starts
      .clear (.error (.fault (makeFault s name payload)), s.entered ⟨id, some hs, []⟩) := by
  let begun := (s.opened id).ticked
  let installed := { begun.ticked with handlers := Handlers.empty.installAll id hs }
  have stays (s' : Session τ) (p : Activity) (same : s'.pending = s.pending) :
      (s'.killed && p.killable) = false := by simp [Session.killed, same, quiet]
  have install : Yields (.run (.install hs)) begun _ .clear (.ok (), installed) :=
    .of_atomic (allows 1 (by decide)) (congrArg (some ∘ done) (installAll_handlers hs _))
  have throwing : Yields (.run (.throw name payload)) installed _ .clear
      (.error (.fault (makeFault installed name payload)), installed.ticked) :=
    .of_atomic (allows 2 (by decide)) rfl
  rw [show makeFault installed name payload = makeFault s name payload from
    s.makeFault_entered ⟨id, some hs, []⟩ name payload] at throwing
  have last : Yields (.children true [.throw name payload]) installed _ .clear
      (.error (.fault (makeFault s name payload)), installed.ticked) :=
    .stopped (stays installed _ rfl) throwing
  have children := Yields.next (stays begun _ rfl) install last
  exact ⟨_, .stepped (step_of_passed (allows 0 (by decide))) (.sequence children)⟩

end Engine

/-- A scope installs relays and throws. If nothing is pending and the limits allow for it, the
scope dispatches the faults of the walk through the relays, in their order and each
to the relay that takes it, and raises the fault at which the walk ends, once it has been captured
and the frame merged. No more faults are dispatched than the relays have names, and one. -/
theorem throw_walks_through_relays (τ : Type) [Tracer τ] (id : String) (relays : List Relay)
    (name : String) (payload : Option Expr) (s : Session τ) :
    let d : ScopeDefinition :=
      ⟨id, .sequence [.install (relays.map Relay.entry), .throw name payload], true⟩
    let path := walk relays (makeFault s name payload)
    s.pending = none → s.effectiveLimits.depthError? s.depth = none →
      s.Allows (3 + path.1.length) →
      (d.execute s).1 = .error (.fault path.2) ∧
      s.Logs (.scopePush id (s.depth + 1) ::
          (path.1.map (fun f => .faultDispatch id f.name) ++
            [.faultCaptured id path.2.name, .scopePop id true s.depth,
              .faultRaised id path.2.name])) (d.execute s).2 ∧
      path.1.length ≤ (relays.filterMap Relay.name?).dedup.length + 1 := by
  intro d path quiet fits allows
  obtain ⟨starts, body⟩ := Yields.throwing id (relays.map Relay.entry) name payload
    (fun k below => allows k (by omega)) quiet
  obtain ⟨starts₁, s₁, settle, logs, stands⟩ := Yields.settle_of_walk .body body
    (Handlers.holds_installAll id relays) rfl (allows.after rfl rfl rfl)
  have installed : Stands (s.opened id) 0 (s.entered ⟨id, some (relays.map Relay.entry), []⟩) :=
    stands_of_eq rfl rfl rfl
  have inner := installed.then stands
  obtain ⟨env, popped⟩ := inner.closable true
  have depth : env.depth = s.depth := by
    rw [← (inner.closed popped).depth, Session.depth, env_closed]
  have closing := s₁.logs_closed true env
  rw [show s₁.currentScope = id from inner.currentScope, depth] at closing
  have logged := (((s.logs_entered _).append logs).append closing).observe
    (.faultRaised id path.2.name)
  obtain ⟨starts₂, derivation⟩ := execute_derivation d s
  obtain ⟨-, -, answer⟩ := derivation.unique
    (.settled (pushScope_of_fits fits) settle (leave_of_popped popped))
  rw [← answer]
  refine ⟨rfl, ?_, (length_walk_le_targets relays _).trans (card_targets_le relays)⟩
  show s.Logs _ ((s₁.closed true env).observe (.faultRaised id path.2.name))
  simpa using logged

/-- Two relays for one name, of which the last counts, a circle of two names, a fallback, and a
relay that throws a fault of its own name. -/
def detours : List Relay := [
  ⟨some "Late", ⟨"Full", .str "plane"⟩⟩, ⟨some "Full", ⟨"Late", .str "bus"⟩⟩,
  ⟨none, ⟨"Lost", .void⟩⟩, ⟨some "Lost", ⟨"Lost", .str "bag"⟩⟩,
  ⟨some "Late", ⟨"Full", .str "train"⟩⟩]

theorem walk_detours : walk detours ⟨"Late", .str "fog"⟩ =
    ([⟨"Late", .str "fog"⟩, ⟨"Full", .str "train"⟩, ⟨"Late", .str "bus"⟩, ⟨"Lost", .void⟩],
      ⟨"Lost", .str "bag"⟩) := by
  decide +kernel

theorem throw_walks_through_detours :
    let s := Session.start .standard (some ⟨none, some 7, none⟩) (Recording.empty none)
    let d : ScopeDefinition := ⟨"trip", .sequence [.install (detours.map Relay.entry),
      .throw "Late" (some (.literal (.str "fog")))], true⟩
    s.pending = none ∧ s.effectiveLimits.depthError? s.depth = none ∧ s.Allows 7 ∧
      (detours.filterMap Relay.name?).dedup.length + 1 = 4 ∧
      (d.execute s).1 = .error (.fault ⟨"Lost", .str "bag"⟩) ∧
      (d.execute s).2.tracer.events = [.scopePush "trip" 1, .faultDispatch "trip" "Late",
        .faultDispatch "trip" "Full", .faultDispatch "trip" "Late", .faultDispatch "trip" "Lost",
        .faultCaptured "trip" "Lost", .scopePop "trip" true 0, .faultRaised "trip" "Lost"] := by
  intro s d
  have fault : makeFault s "Late" (some (.literal (.str "fog"))) = ⟨"Late", .str "fog"⟩ := rfl
  have fits : s.effectiveLimits.depthError? s.depth = none := by decide
  have allows : s.Allows 7 := by
    unfold Allows
    decide
  have walks := throw_walks_through_relays Recording "trip" detours "Late"
    (some (.literal (.str "fog"))) s
  rw [fault, walk_detours] at walks
  obtain ⟨raised, logs, -⟩ := walks rfl fits allows
  refine ⟨rfl, fits, allows, by decide, raised, ?_⟩
  have recorded := congrArg Recording.events (logs.trans (Recording.foldl_observe _ []))
  rw [recorded]
  rfl

end Orchestration
