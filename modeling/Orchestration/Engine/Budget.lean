import Orchestration.Engine
import Orchestration.Session.Weight

/-!
# Every run ends

Each activity that starts takes a step, and an activity that starts out of a handler
table has left the table. So the steps made and the nodes that the tables
hold at the end together come to at most the nodes of the activity and of the tables
at the start. A budget of that size is enough for the engine to answer.
-/

set_option autoImplicit false

namespace Orchestration

open Activity

namespace Session

variable {τ : Type} {w : Activity → Nat}

/-- An answer that has made at least `least` steps, and whose further steps together with the
weight left in the tables stay within `most` and what the tables held before. -/
def Within {α : Type} (w : Activity → Nat) (least most : Nat) (s : Session τ) (r : Answer τ α) :
    Prop :=
  s.steps + least ≤ r.2.steps ∧ r.2.steps + r.2.weight w ≤ s.steps + s.weight w + most

theorem within_of_tables_eq {α : Type} {s : Session τ} {r : Answer τ α} (steps : r.2.steps = s.steps)
    (current : r.2.handlers = s.handlers) (outer : r.2.enclosing = s.enclosing) :
    Within w 0 0 s r := by
  simp [Within, weight_eq, steps, current, outer]

theorem Within.andThen {s : Session τ} {r : Answer τ Unit} {next : Session τ → Answer τ Unit}
    {least most more : Nat} (first : Within w least most s r)
    (second : ∀ s', r = (.ok (), s') → Within w 0 more s' (next s')) :
    Within w least (most + more) s (andThen r next) := by
  obtain ⟨e, s'⟩ := r
  simp only [Within] at *
  cases e with
  | error stop => simp [Session.andThen, fail]; omega
  | ok u =>
    have := second s' rfl
    simp only [Session.andThen]; omega

theorem within_step (s : Session τ) : Within w 1 1 s s.step := by
  unfold step
  dsimp only
  split <;> simp [Within, fail, done, weight_eq] <;> omega

theorem within_write (s : Session τ) (p : Path) (v : Value) : Within w 0 0 s (s.write p v) := by
  unfold write
  dsimp only
  split <;> exact within_of_tables_eq rfl rfl rfl

theorem within_deliver (s : Session τ) (f : Fault) : Within w 0 0 s (s.deliver f) := by
  unfold deliver
  exact (within_write ..).andThen fun s' _ => within_write ..

theorem within_offerAll (calls : List Call) (s : Session τ) :
    Within w 0 0 s (offerAll calls s) := by
  induction calls generalizing s with
  | nil => exact within_of_tables_eq rfl rfl rfl
  | cons call rest ih =>
    refine Within.andThen ?_ fun s' _ => ih s'
    unfold offer
    dsimp only
    split
    · exact within_of_tables_eq rfl rfl rfl
    · split <;> exact within_of_tables_eq rfl rfl rfl

theorem steps_takeHandler? {s s' : Session τ} {name : String} {orFallback : Bool} {p : Activity}
    (taken : s.takeHandler? name orFallback = some (p, s')) : s'.steps = s.steps := by
  obtain ⟨r, -, h⟩ := Option.map_eq_some_iff.mp taken
  cases h; rfl

theorem steps_takeCompensation? {s s' : Session τ} {scope : String} {p : Activity}
    (taken : s.takeCompensation? scope = some (p, s')) : s'.steps = s.steps := by
  obtain ⟨r, -, h⟩ := Option.map_eq_some_iff.mp taken
  cases h; rfl

theorem steps_takeVisible? {s s' : Session τ} {scope : String} {p : Activity}
    (taken : s.takeVisible? scope = some (p, s')) : s'.steps = s.steps := by
  unfold takeVisible? at taken
  split at taken <;> cases taken
  rfl

variable [Tracer τ]

theorem within_pushScope (s : Session τ) (scope : String) : Within w 0 0 s (s.pushScope scope) := by
  unfold pushScope
  split <;> simp [Within, fail, done, observe, weight_eq, tables]

theorem within_popScope (s : Session τ) (merge : Bool) : Within w 0 0 s (s.popScope merge) := by
  unfold popScope
  split
  · simp [Within, fail]
  · dsimp only
    split
    · next none => simp [Within, done, observe, weight_eq]
    · next parent outer some =>
      have := parent.weight_absorb_le (w := w) s.handlers
      cases merge with
      | false => simp [Within, done, observe, weight_eq, some]
      | true => simp [Within, done, observe, weight_eq, some]; omega

end Session

namespace Engine

open Session

variable {τ : Type}

def Suffices (budget : Nat) (run : Runner τ) : Prop :=
  ∀ p s, p.nodes + s.weight nodes ≤ budget → ∃ r, run p s = some r ∧ Within nodes 1 p.nodes s r

theorem inSequence_within {budget : Nat} {run : Runner τ} (hrun : Suffices budget run)
    (ps : List Activity) (s : Session τ) (enough : totalNodes ps + s.weight nodes ≤ budget) :
    ∃ r, inSequence run ps s = some r ∧ Within nodes 0 (totalNodes ps) s r := by
  induction ps generalizing s with
  | nil => exact ⟨_, rfl, by simp [Within, done]⟩
  | cons p ps ih =>
    rw [totalNodes_cons] at enough
    unfold inSequence
    split
    · exact ⟨_, rfl, by simp [Within, done]⟩
    · obtain ⟨⟨e, s'⟩, h, w⟩ := hrun p s (by omega)
      simp only [h]
      simp only [Within] at *
      cases e with
      | error stop => exact ⟨_, rfl, by simp only [totalNodes_cons]; omega⟩
      | ok u =>
        obtain ⟨r, h', w'⟩ := ih s' (by omega)
        exact ⟨r, h', by simp only [totalNodes_cons] at *; omega⟩

theorem inParallel_within {budget : Nat} {run : Runner τ} (hrun : Suffices budget run)
    (ps : List Activity) (s : Session τ) (enough : totalNodes ps + s.weight nodes ≤ budget) :
    ∃ r, inParallel run ps s = some r ∧ Within nodes 0 (totalNodes ps) s r := by
  induction ps generalizing s with
  | nil => exact ⟨_, rfl, by simp [Within, done]⟩
  | cons p ps ih =>
    rw [totalNodes_cons] at enough
    unfold inParallel
    split
    · obtain ⟨r, h, w⟩ := ih s (by omega)
      exact ⟨r, h, by simp only [Within, totalNodes_cons] at *; omega⟩
    · obtain ⟨⟨e, s'⟩, h, w⟩ := hrun p s (by omega)
      simp only [h]
      simp only [Within] at *
      cases e with
      | error stop => exact ⟨_, rfl, by simp only [totalNodes_cons]; omega⟩
      | ok u =>
        obtain ⟨r, h', w'⟩ := ih s' (by omega)
        exact ⟨r, h', by simp only [totalNodes_cons] at *; omega⟩

theorem steps_installAll (handlers : List (Target × Activity)) (s : Session τ) :
    (installAll s handlers).steps = s.steps := by
  induction handlers generalizing s with
  | nil => rfl
  | cons h handlers ih => exact ih (s.install h.1 h.2)

theorem weight_installAll_le {w : Activity → Nat} (handlers : List (Target × Activity))
    (s : Session τ) :
    (installAll s handlers).weight w ≤ s.weight w + sumOf w handlers := by
  induction handlers generalizing s with
  | nil => exact Nat.le_refl _
  | cons h handlers ih =>
    have first := s.weight_install_le (w := w) h.1 h.2
    have rest := ih (s.install h.1 h.2)
    simp only [installAll, List.foldl_cons, sumOf] at *
    omega

variable [Tracer τ]

theorem settle_within {budget : Nat} {run : Runner τ} (hrun : Suffices budget run) (id : String)
    (depth : Nat) (p : Activity) (s : Session τ) (deep : p.nodes + s.weight nodes ≤ depth)
    (enough : p.nodes + s.weight nodes ≤ budget) :
    ∃ r, settle run id depth p s = some r ∧ Within nodes 1 p.nodes s r := by
  induction depth generalizing p s with
  | zero => have := p.nodes_pos; omega
  | succ depth ih =>
    obtain ⟨⟨e, s₁⟩, h, w⟩ := hrun p s enough
    unfold settle
    simp only [h]
    simp only [Within] at w
    match e with
    | .error (.abort a) => exact ⟨_, rfl, w⟩
    | .ok () =>
      dsimp only
      cases s₁.pending with
      | none => exact ⟨_, rfl, w⟩
      | some killer =>
        dsimp only
        cases taken : (s₁.observe (.killObserved id killer.name)).takeCompensation? id with
        | none => exact ⟨_, rfl, w⟩
        | some t =>
          obtain ⟨c, s₂⟩ := t
          have steps := steps_takeCompensation? taken
          change s₂.steps = s₁.steps at steps
          have stored := weight_takeCompensation? (w := nodes) taken
          change c.nodes + s₂.weight nodes ≤ s₁.weight nodes at stored
          obtain ⟨⟨e', s₃⟩, h', w'⟩ := ih c (s₂.clearKill.observe (.compensationStart id))
            (by change c.nodes + s₂.weight nodes ≤ depth; omega)
            (by change c.nodes + s₂.weight nodes ≤ budget; omega)
          change s₂.steps + 1 ≤ s₃.steps ∧ s₃.steps + s₃.weight nodes ≤ s₂.steps + s₂.weight nodes + c.nodes
            at w'
          simp only [h']
          cases e' with
          | error stop => exact ⟨_, rfl, by simp only [Within]; omega⟩
          | ok v =>
            refine ⟨_, rfl, ?_⟩
            change s.steps + 1 ≤ s₃.steps ∧ s₃.steps + s₃.weight nodes ≤ s.steps + s.weight nodes + p.nodes
            omega
    | .error (.fault f) =>
      dsimp only
      cases taken : s₁.takeHandler? f.name true with
      | none => exact ⟨_, rfl, w⟩
      | some t =>
        obtain ⟨c, s₂⟩ := t
        have steps := steps_takeHandler? taken
        have stored : c.nodes + s₂.weight nodes ≤ s₁.weight nodes := weight_takeHandler? taken
        have delivered := within_deliver (w := nodes) s₂ f
        dsimp only
        generalize s₂.deliver f = answer at delivered
        obtain ⟨e', s₃⟩ := answer
        simp only [Within] at delivered
        cases e' with
        | error stop => exact ⟨_, rfl, by simp only [Within, fail]; omega⟩
        | ok u =>
          obtain ⟨r, h', w'⟩ := ih c (s₃.observe (.faultDispatch s₁.currentScope f.name))
            (by change c.nodes + s₃.weight nodes ≤ depth; omega)
            (by change c.nodes + s₃.weight nodes ≤ budget; omega)
          refine ⟨r, h', ?_⟩
          change s₃.steps + 1 ≤ r.2.steps ∧ r.2.steps + r.2.weight nodes ≤ s₃.steps + s₃.weight nodes + c.nodes
            at w'
          simp only [Within]; omega

theorem resolve_within {w : Activity → Nat} (id : String) (v : Verdict) (s : Session τ) :
    Within w 0 0 s (resolve id v s) := by
  unfold resolve
  split
  · split <;> simp [Within, fail, done, observe, weight_eq]
  · simp [Within, done]

theorem leave_within {w : Activity → Nat} (id : String) (autoPop : Bool) (v : Verdict)
    (s : Session τ) : Within w 0 0 s (leave id autoPop v s) := by
  unfold leave
  split
  · exact (within_popScope ..).andThen fun s' _ => resolve_within ..
  · exact resolve_within ..

theorem execute_within {budget : Nat} {run : Runner τ} (hrun : Suffices budget run) (id : String)
    (depth : Nat) (body : Activity) (autoPop : Bool) (s : Session τ)
    (deep : body.nodes + s.weight nodes ≤ depth) (enough : body.nodes + s.weight nodes ≤ budget) :
    ∃ r, execute run depth id body autoPop s = some r ∧ Within nodes 0 body.nodes s r := by
  unfold execute
  have pushed := within_pushScope (w := nodes) s id
  generalize s.pushScope id = answer at pushed
  obtain ⟨e, s₁⟩ := answer
  simp only [Within] at pushed
  cases e with
  | error stop => exact ⟨_, rfl, by simp only [Within, fail]; omega⟩
  | ok u =>
    obtain ⟨⟨e', s₂⟩, h, w⟩ := settle_within hrun id depth body s₁ (by omega) (by omega)
    simp only [h]
    simp only [Within] at w
    cases e' with
    | error stop => exact ⟨_, rfl, by simp only [Within, fail]; omega⟩
    | ok v =>
      have left := leave_within (w := nodes) id autoPop v s₂
      exact ⟨_, rfl, by simp only [Within] at *; omega⟩

theorem perform_within {budget : Nat} {run : Runner τ} (hrun : Suffices budget run) (p : Activity)
    (s : Session τ) (enough : p.nodes + s.weight nodes ≤ budget + 1) :
    ∃ r, perform run budget p s = some r ∧ Within nodes 0 (p.nodes - 1) s r := by
  cases p with
  | nil => exact ⟨_, rfl, by simp [Within, done]⟩
  | sequence ps =>
    rw [nodes_sequence] at enough ⊢
    rw [Nat.add_sub_cancel_left]
    exact inSequence_within hrun ps s (by omega)
  | parallel ps =>
    rw [nodes_parallel] at enough ⊢
    rw [Nat.add_sub_cancel_left]
    exact inParallel_within hrun ps s (by omega)
  | assign path value => exact ⟨_, rfl, within_write ..⟩
  | print parts => exact ⟨_, rfl, within_offerAll ..⟩
  | throw name payload => exact ⟨_, rfl, by simp [Within, fail]⟩
  | kill name payload => exact ⟨_, rfl, within_of_tables_eq rfl rfl rfl⟩
  | install handlers =>
    have steps := steps_installAll handlers s
    have := weight_installAll_le (w := nodes) handlers s
    exact ⟨_, rfl, by simp only [Within, done, nodes_install]; omega⟩
  | compensate scope =>
    simp only [perform]
    cases taken : s.takeVisible? scope with
    | none => exact ⟨_, rfl, by simp [Within, done]⟩
    | some t =>
      obtain ⟨c, s₁⟩ := t
      have steps := steps_takeVisible? taken
      have stored : c.nodes + s₁.weight nodes ≤ s.weight nodes := weight_takeVisible? taken
      rw [nodes_compensate] at enough
      obtain ⟨r, h, w⟩ := hrun c s₁ (by omega)
      exact ⟨r, h, by simp only [Within, nodes_compensate] at *; omega⟩
  | scope id body autoPop =>
    rw [nodes_scope] at enough ⊢
    rw [Nat.add_sub_cancel_left]
    exact execute_within hrun id budget body autoPop s (by omega) (by omega)
  | exit => exact ⟨_, rfl, by simp [Within, fail]⟩

/-- A budget as large as the activity and the handler tables together is enough, and the nodes
that were there at the start pay for every step. -/
theorem runWithin_within (budget : Nat) : Suffices budget (runWithin (τ := τ) budget) := by
  induction budget with
  | zero => intro p s enough; have := p.nodes_pos; omega
  | succ budget ih =>
    intro p s enough
    have stepped := within_step (w := nodes) s
    unfold runWithin
    generalize s.step = answer at stepped
    obtain ⟨e, s₁⟩ := answer
    simp only [Within] at stepped
    have := p.nodes_pos
    cases e with
    | error stop => exact ⟨_, rfl, by simp only [Within, fail]; omega⟩
    | ok u =>
      obtain ⟨r, h, w⟩ := perform_within ih p s₁ (by omega)
      exact ⟨r, h, by simp only [Within] at *; omega⟩

end Engine

end Orchestration
