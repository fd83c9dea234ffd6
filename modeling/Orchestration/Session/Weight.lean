import Orchestration.Session

/-!
# The weight of handler tables

A weight of activities adds up over everything that the handler tables hold. Taking an
activity out of a table takes its weight along, installing one adds at most its weight,
and a merge of tables adds nothing.
-/

set_option autoImplicit false

namespace Orchestration

variable {w : Activity → Nat}

namespace Handlers

@[simp] theorem weightIn_nil : weightIn w [] = 0 := rfl

@[simp] theorem weightIn_cons (k : String) (p : Activity) (d : Dict Activity) :
    weightIn w ((k, p) :: d) = w p + weightIn w d := rfl

@[simp] theorem weightOf_cons (h : Handlers) (hs : List Handlers) :
    weightOf w (h :: hs) = h.weight w + weightOf w hs := rfl

@[simp] theorem weight_empty : empty.weight w = 0 := rfl

theorem weightIn_insert_le (d : Dict Activity) (k : String) (p : Activity) :
    weightIn w (d.insert k p) ≤ weightIn w d + w p := by
  induction d with
  | nil => simp [Dict.insert]
  | cons e d ih =>
    obtain ⟨k', q⟩ := e
    by_cases h : k' = k <;> simp [Dict.insert, h] <;> omega

theorem weightIn_erase_le (d : Dict Activity) (k : String) :
    weightIn w (d.erase k) ≤ weightIn w d := by
  induction d with
  | nil => simp
  | cons e d ih =>
    obtain ⟨k', q⟩ := e
    by_cases h : k' = k <;> simp [Dict.erase_cons, h] <;> omega

theorem weightIn_erase_of_get? {d : Dict Activity} {k : String} {p : Activity}
    (h : d.get? k = some p) : w p + weightIn w (d.erase k) ≤ weightIn w d := by
  induction d with
  | nil => simp at h
  | cons e d ih =>
    obtain ⟨k', q⟩ := e
    rw [Dict.get?_cons] at h
    have := weightIn_erase_le (w := w) d k
    by_cases hk : k' = k
    · simp [hk] at h; subst h; simp [Dict.erase_cons, hk]; omega
    · simp [hk] at h; have := ih h; simp [Dict.erase_cons, hk]; omega

theorem weightIn_merge_le (d e : Dict Activity) :
    weightIn w (d.merge e) ≤ weightIn w d + weightIn w e := by
  induction e generalizing d with
  | nil => simp [Dict.merge]
  | cons x e ih =>
    obtain ⟨k, p⟩ := x
    have h := ih (d.insert k p)
    have := weightIn_insert_le (w := w) d k p
    simp only [Dict.merge, List.foldl_cons, weightIn_cons] at h ⊢
    omega

theorem weight_install_le (h : Handlers) (scope : String) (t : Target) (p : Activity) :
    (h.install scope t p).weight w ≤ h.weight w + w p := by
  cases t with
  | fault name =>
    have := weightIn_insert_le (w := w) h.faults name p
    simp [install, weight]; omega
  | default => simp [install, weight]; omega
  | this =>
    have := weightIn_insert_le (w := w) h.compensations scope p
    simp [install, weight]; omega

theorem weight_takeFault? {h h' : Handlers} {name : String} {orFallback : Bool} {p : Activity}
    (taken : h.takeFault? name orFallback = some (p, h')) : w p + h'.weight w ≤ h.weight w := by
  unfold takeFault? at taken
  split at taken
  · next q found =>
    have := weightIn_erase_of_get? (w := w) found
    simp at taken; obtain ⟨rfl, rfl⟩ := taken; simp [weight]; omega
  · split at taken
    · cases hf : h.fallback with
      | none => simp [hf] at taken
      | some q =>
        simp [hf] at taken; obtain ⟨rfl, rfl⟩ := taken; simp [weight, hf]; omega
    · simp at taken

theorem weight_takeCompensation? {h h' : Handlers} {scope : String} {p : Activity}
    (taken : h.takeCompensation? scope = some (p, h')) : w p + h'.weight w ≤ h.weight w := by
  unfold takeCompensation? at taken
  cases found : h.compensations.get? scope with
  | none => simp [found] at taken
  | some q =>
    have := weightIn_erase_of_get? (w := w) found
    simp [found] at taken; obtain ⟨rfl, rfl⟩ := taken; simp [weight]; omega

theorem weight_takeInnermost? {scope : String} {hs hs' : List Handlers} {p : Activity}
    (taken : takeInnermost? scope hs = some (p, hs')) :
    w p + weightOf w hs' ≤ weightOf w hs := by
  induction hs generalizing hs' with
  | nil => simp [takeInnermost?] at taken
  | cons h outer ih =>
    rw [takeInnermost?] at taken
    split at taken
    · next found =>
      have := weight_takeCompensation? (w := w) found
      simp at taken; obtain ⟨rfl, rfl⟩ := taken; simp; omega
    · cases inner : takeInnermost? scope outer with
      | none => simp [inner] at taken
      | some r =>
        obtain ⟨q, rest⟩ := r
        simp [inner] at taken; obtain ⟨rfl, rfl⟩ := taken
        have := ih inner
        simp; omega

theorem weight_absorb_le (h closed : Handlers) :
    (h.absorb closed).weight w ≤ h.weight w + closed.weight w := by
  have := weightIn_merge_le (w := w) h.compensations closed.compensations
  simp [absorb, weight]; omega

end Handlers

namespace Session

variable {τ : Type}

theorem weight_eq (s : Session τ) :
    s.weight w = s.handlers.weight w + Handlers.weightOf w s.enclosing := rfl

theorem weight_install_le (s : Session τ) (t : Target) (p : Activity) :
    (s.install t p).weight w ≤ s.weight w + w p := by
  have := s.handlers.weight_install_le (w := w) s.currentScope t p
  simp [install, weight_eq]; omega

theorem weight_takeHandler? {s s' : Session τ} {name : String} {orFallback : Bool} {p : Activity}
    (taken : s.takeHandler? name orFallback = some (p, s')) :
    w p + s'.weight w ≤ s.weight w := by
  unfold takeHandler? at taken
  cases found : s.handlers.takeFault? name orFallback with
  | none => simp [found] at taken
  | some r =>
    have := Handlers.weight_takeFault? (w := w) found
    simp [found] at taken; obtain ⟨rfl, rfl⟩ := taken; simp [weight_eq]; omega

theorem weight_takeCompensation? {s s' : Session τ} {scope : String} {p : Activity}
    (taken : s.takeCompensation? scope = some (p, s')) :
    w p + s'.weight w ≤ s.weight w := by
  unfold takeCompensation? at taken
  cases found : s.handlers.takeCompensation? scope with
  | none => simp [found] at taken
  | some r =>
    have := Handlers.weight_takeCompensation? (w := w) found
    simp [found] at taken; obtain ⟨rfl, rfl⟩ := taken; simp [weight_eq]; omega

theorem weight_takeVisible? {s s' : Session τ} {scope : String} {p : Activity}
    (taken : s.takeVisible? scope = some (p, s')) :
    w p + s'.weight w ≤ s.weight w := by
  unfold takeVisible? at taken
  split at taken
  · next q h outer found =>
    have := Handlers.weight_takeInnermost? (w := w) found
    simp at taken; obtain ⟨rfl, rfl⟩ := taken
    simpa [weight, tables] using this
  · simp at taken

end Session

end Orchestration
