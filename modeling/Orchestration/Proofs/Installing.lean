import Orchestration.Engine.Budget

/-!
# What a table holds after an installation

A list of handlers is installed one by one, so of several handlers for one target the last one
is held. The compensations of a scope that has installed its handlers in a table of its own are
a single one at most, under the id of the scope.
-/

set_option autoImplicit false

namespace Orchestration

open Activity

def lastOf (hs : List (Target × Activity)) (target : Target) : Option Activity :=
  (hs.reverse.find? (·.1 = target)).map Prod.snd

theorem lastOf_cons (entry : Target × Activity) (hs : List (Target × Activity))
    (target : Target) : lastOf (entry :: hs) target =
      (lastOf hs target).or (if entry.1 = target then some entry.2 else none) := by
  unfold lastOf
  rw [List.reverse_cons, List.find?_append, List.find?_singleton]
  cases hs.reverse.find? (·.1 = target) with
  | some found => rfl
  | none =>
    rw [Option.none_or, Option.map_none, Option.none_or]
    by_cases same : entry.1 = target
    · rw [if_pos same, if_pos (decide_eq_true same)]
      rfl
    · rw [if_neg same, if_neg (by rw [decide_eq_false same]; decide)]
      rfl

namespace Handlers

def installAll (h : Handlers) (scope : String) (hs : List (Target × Activity)) : Handlers :=
  hs.foldl (fun h entry => h.install scope entry.1 entry.2) h

theorem installAll_cons (h : Handlers) (scope : String) (entry : Target × Activity)
    (hs : List (Target × Activity)) :
    h.installAll scope (entry :: hs) = (h.install scope entry.1 entry.2).installAll scope hs := rfl

def held (h : Handlers) (scope : String) : Target → Option Activity
  | .fault name => h.faults.get? name
  | .default => h.fallback
  | .this => h.compensations.get? scope

theorem held_install (h : Handlers) (scope : String) (t : Target) (p : Activity)
    (target : Target) : (h.install scope t p).held scope target =
      if t = target then some p else h.held scope target := by
  cases t with
  | fault name =>
    cases target with
    | fault other =>
      simp only [install, held, Dict.get?_insert, Target.fault.injEq]
    | default | this => exact (if_neg (by intro same; cases same)).symm
  | default =>
    cases target with
    | default => rw [if_pos rfl]; rfl
    | fault | this => exact (if_neg (by intro same; cases same)).symm
  | this =>
    cases target with
    | this => simp only [install, held, Dict.get?_insert, if_true]
    | fault | default => exact (if_neg (by intro same; cases same)).symm

theorem held_installAll (h : Handlers) (scope : String) (hs : List (Target × Activity))
    (target : Target) :
    (h.installAll scope hs).held scope target = (lastOf hs target).or (h.held scope target) := by
  induction hs generalizing h with
  | nil => rfl
  | cons entry hs ih =>
    rw [installAll_cons, ih, lastOf_cons, held_install, Option.or_assoc]
    congr 1
    split <;> rfl

theorem weight_installAll_le (hs : List (Target × Activity)) (h : Handlers) (scope : String)
    (w : Activity → Nat) : (h.installAll scope hs).weight w ≤ h.weight w + sumOf w hs := by
  induction hs generalizing h with
  | nil => exact Nat.le_refl _
  | cons entry hs ih =>
    have first := h.weight_install_le (w := w) scope entry.1 entry.2
    have rest := ih (h.install scope entry.1 entry.2)
    simp only [installAll_cons, sumOf] at *
    omega

def Owned (scope : String) (h : Handlers) : Prop :=
  ∃ own : Option Activity, h.compensations = (own.map fun c => (scope, c)).toList

theorem owned_empty (scope : String) : empty.Owned scope := ⟨none, rfl⟩

theorem Owned.install {scope : String} {h : Handlers} (owned : h.Owned scope) (t : Target)
    (p : Activity) : (h.install scope t p).Owned scope := by
  cases t with
  | fault | default => exact owned
  | this =>
    obtain ⟨own, eq⟩ := owned
    refine ⟨some p, ?_⟩
    show h.compensations.insert scope p = [(scope, p)]
    rw [eq]
    cases own with
    | none => rfl
    | some c => exact if_pos rfl

theorem Owned.installAll {scope : String} {h : Handlers} (owned : h.Owned scope)
    (hs : List (Target × Activity)) : (h.installAll scope hs).Owned scope := by
  induction hs generalizing h with
  | nil => exact owned
  | cons entry hs ih => exact ih (owned.install entry.1 entry.2)

theorem Owned.nodup {scope : String} {h : Handlers} (owned : h.Owned scope) :
    h.compensations.names.Nodup := by
  obtain ⟨own, eq⟩ := owned
  rw [eq]
  cases own with
  | none => exact List.nodup_nil
  | some c => exact List.nodup_cons.mpr ⟨List.not_mem_nil, List.nodup_nil⟩

theorem Owned.get?_of_ne {scope : String} {h : Handlers} (owned : h.Owned scope) {other : String}
    (apart : scope ≠ other) : h.compensations.get? other = none := by
  obtain ⟨own, eq⟩ := owned
  rw [eq]
  cases own with
  | none => rfl
  | some c => exact (Dict.get?_cons scope c [] other).trans (if_neg apart)

theorem takeFault?_of_held {h : Handlers} (scope : String) {name : String} {p : Activity}
    (held : (h.held scope (.fault name)).or (h.held scope .default) = some p) :
    ∃ h', h.takeFault? name true = some (p, h') ∧ h'.compensations = h.compensations := by
  unfold takeFault?
  simp only [Handlers.held] at held
  cases own : h.faults.get? name with
  | some q =>
    rw [own] at held
    cases held
    exact ⟨_, rfl, rfl⟩
  | none =>
    rw [own, Option.none_or] at held
    rw [held]
    exact ⟨_, rfl, rfl⟩

theorem takeFault?_of_none {h : Handlers} (scope : String) {name : String}
    (none : (h.held scope (.fault name)).or (h.held scope .default) = none) :
    h.takeFault? name true = .none := by
  obtain ⟨own, fallback⟩ := Option.or_eq_none_iff.mp none
  simp only [held] at own fallback
  unfold takeFault?
  rw [own, fallback]
  rfl

end Handlers

theorem Session.installAll_handlers {τ : Type} (hs : List (Target × Activity)) (s : Session τ) :
    Engine.installAll s hs = { s with handlers := s.handlers.installAll s.currentScope hs } := by
  induction hs generalizing s with
  | nil => rfl
  | cons h hs ih => exact ih (s.install h.1 h.2)

end Orchestration
