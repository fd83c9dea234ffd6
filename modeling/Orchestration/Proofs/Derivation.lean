import Orchestration.Program

/-!
# Derivations

What the engine does with a piece of work, as a relation without a budget: the answer,
and the works that were started on the way, in their order. The works of a run are the
calls that the engine makes: running an activity, performing it once its step is taken,
going through its children, and settling what the body, a handler or the compensation of
a scope comes to. Each work has exactly one derivation, and that of a run ends in the
answer of `Activity.run`.
-/

set_option autoImplicit false

namespace Orchestration

open Engine

variable {τ : Type}

/-! ## Deliveries cannot fail -/

theorem Tree.reach_of_index_zero (f : Tree → Tree) (steps : List Segment)
    (zero : ∀ g ∈ steps, g.index = 0) (t : Tree) : (reach f steps t).1 = none := by
  induction steps generalizing t with
  | nil => rfl
  | cons g rest ih =>
    have first : g.index.toNat = 0 := by simp [zero g (by simp)]
    simp only [reach, first, Nat.not_lt_zero, if_false]
    exact ih (fun g' h => zero g' (by simp [h])) _

namespace Session

/-- The session in which the handler of a fault can read its payload and its name. -/
def delivered (s : Session τ) (f : Fault) : Session τ :=
  { s with env := ((s.env.write (faultSlot s.currentScope f.name) f.payload).2.write
      (faultSlot s.currentScope nameSlot) (.str f.name)).2 }

theorem write_of_index_zero (s : Session τ) (p : Path) (v : Value)
    (zero : ∀ g ∈ p.segments, g.index = 0) :
    s.write p v = done { s with env := (s.env.write p v).2 } := by
  have fits : (s.env.write p v).1 = none := Tree.reach_of_index_zero _ _ zero _
  simp [write, fits]

theorem faultSlot_index (scope name : String) :
    ∀ g ∈ (faultSlot scope name).segments, g.index = 0 := by
  simp [faultSlot, Path.root, Path.join, Path.segments]

theorem deliver_eq (s : Session τ) (f : Fault) : s.deliver f = (s.delivered f).done := by
  simp only [deliver, write_of_index_zero _ _ _ (faultSlot_index _ _), done, andThen]
  rfl

end Session

/-- The verdict on an activity that returned while nothing was pending. Only the settling of an
activity has other ones. -/
abbrev Verdict.clear : Verdict := ⟨true, none⟩

namespace Engine

inductive Role where
  | body
  | compensation
  | handler
  deriving DecidableEq, Repr

inductive Work where
  | run (p : Activity)
  | perform (p : Activity)
  /-- The children of an activity; `ends` tells whether a killable one ends them, rather than being
  passed over, once termination is pending. -/
  | children (ends : Bool) (ps : List Activity)
  | settle (role : Role) (id : String) (p : Activity)

structure Start (τ : Type) where
  work : Work
  session : Session τ

def Start.request? (x : Start τ) : Option Fault :=
  match x.work with
  | .perform (.kill name payload) => some (makeFault x.session name payload)
  | _ => none

/-- What an activity comes to that starts no other one. -/
def atomic? : Activity → Session τ → Option (Answer τ Unit)
  | .nil, s => some s.done
  | .assign path value, s => some (s.write path (value.eval s.env))
  | .print parts, s => some (s.printLine (parts.map fun e => (e.eval s.env).text))
  | .throw name payload, s => some (s.fail (.fault (makeFault s name payload)))
  | .kill name payload, s => some (s.kill (makeFault s name payload)).done
  | .install handlers, s => some (installAll s handlers).done
  | .compensate scope, s => if (s.takeVisible? scope).isNone then some s.done else none
  | .exit, s => some (s.fail (.abort .exit))
  | _, _ => none

variable [Tracer τ]

/-- The work has the derivation that starts the works of the list and ends in the verdict and the
answer. -/
inductive Yields : Work → Session τ → List (Start τ) → Verdict → Answer τ Unit → Prop
  | refused {p s s₁ stop} : s.step = (.error stop, s₁) →
      Yields (.run p) s [⟨.run p, s⟩] .clear (.error stop, s₁)
  | stepped {p s s₁ starts r} : s.step = (.ok (), s₁) → Yields (.perform p) s₁ starts .clear r →
      Yields (.run p) s (⟨.run p, s⟩ :: starts) .clear r
  | atomic {p s r} : atomic? p s = some r → Yields (.perform p) s [⟨.perform p, s⟩] .clear r
  | sequence {ps s starts r} : Yields (.children true ps) s starts .clear r →
      Yields (.perform (.sequence ps)) s (⟨.perform (.sequence ps), s⟩ :: starts) .clear r
  | parallel {ps s starts r} : Yields (.children false ps) s starts .clear r →
      Yields (.perform (.parallel ps)) s (⟨.perform (.parallel ps), s⟩ :: starts) .clear r
  | found {id c s s₁ starts r} : s.takeVisible? id = some (c, s₁) →
      Yields (.run c) s₁ starts .clear r →
      Yields (.perform (.compensate id)) s (⟨.perform (.compensate id), s⟩ :: starts) .clear r
  | unopened {id body autoPop s s₁ stop} : s.pushScope id = (.error stop, s₁) →
      Yields (.perform (.scope id body autoPop)) s [⟨.perform (.scope id body autoPop), s⟩] .clear
        (.error stop, s₁)
  | unsettled {id body autoPop s s₁ s₂ starts stop v} : s.pushScope id = (.ok (), s₁) →
      Yields (.settle .body id body) s₁ starts v (.error stop, s₂) →
      Yields (.perform (.scope id body autoPop)) s
        (⟨.perform (.scope id body autoPop), s⟩ :: starts) .clear (.error stop, s₂)
  | settled {id body autoPop s s₁ s₂ starts v r} : s.pushScope id = (.ok (), s₁) →
      Yields (.settle .body id body) s₁ starts v (.ok (), s₂) → leave id autoPop v s₂ = r →
      Yields (.perform (.scope id body autoPop)) s
        (⟨.perform (.scope id body autoPop), s⟩ :: starts) .clear r
  | finished {ends s} : Yields (.children ends []) s [⟨.children ends [], s⟩] .clear (.ok (), s)
  | passed {ends p ps s starts r} : (s.killed && p.killable) = true →
      Yields (.children ends (if ends then [] else ps)) s starts .clear r →
      Yields (.children ends (p :: ps)) s (⟨.children ends (p :: ps), s⟩ :: starts) .clear r
  | next {ends p ps s s₁ starts starts' r} : (s.killed && p.killable) = false →
      Yields (.run p) s starts .clear (.ok (), s₁) → Yields (.children ends ps) s₁ starts' .clear r →
      Yields (.children ends (p :: ps)) s (⟨.children ends (p :: ps), s⟩ :: (starts ++ starts'))
        .clear r
  | stopped {ends p ps s s₁ starts stop} : (s.killed && p.killable) = false →
      Yields (.run p) s starts .clear (.error stop, s₁) →
      Yields (.children ends (p :: ps)) s (⟨.children ends (p :: ps), s⟩ :: starts) .clear
        (.error stop, s₁)
  | quiet {role id p s s₁ starts} : Yields (.run p) s starts .clear (.ok (), s₁) →
      s₁.pending = none →
      Yields (.settle role id p) s (⟨.settle role id p, s⟩ :: starts) .clear (.ok (), s₁)
  | killed {role id p s s₁ starts k} : Yields (.run p) s starts .clear (.ok (), s₁) →
      s₁.pending = some k →
      (s₁.observe (.killObserved id k.name)).takeCompensation? id = none →
      Yields (.settle role id p) s (⟨.settle role id p, s⟩ :: starts) ⟨false, none⟩
        (.ok (), s₁.observe (.killObserved id k.name))
  | undone {role id p c s s₁ s₂ s₃ starts starts' k v} :
      Yields (.run p) s starts .clear (.ok (), s₁) → s₁.pending = some k →
      (s₁.observe (.killObserved id k.name)).takeCompensation? id = some (c, s₂) →
      Yields (.settle .compensation id c) (s₂.clearKill.observe (.compensationStart id)) starts' v
        (.ok (), s₃) →
      Yields (.settle role id p) s (⟨.settle role id p, s⟩ :: (starts ++ starts'))
        ⟨false, v.captured⟩ (.ok (), (s₃.kill k).observe (.compensationEnd id))
  | interrupted {role id p c s s₁ s₂ s₃ starts starts' k v stop} :
      Yields (.run p) s starts .clear (.ok (), s₁) → s₁.pending = some k →
      (s₁.observe (.killObserved id k.name)).takeCompensation? id = some (c, s₂) →
      Yields (.settle .compensation id c) (s₂.clearKill.observe (.compensationStart id)) starts' v
        (.error stop, s₃) →
      Yields (.settle role id p) s (⟨.settle role id p, s⟩ :: (starts ++ starts')) .clear
        (.error stop, s₃)
  | captured {role id p s s₁ starts f} : Yields (.run p) s starts .clear (.error (.fault f), s₁) →
      s₁.takeHandler? f.name true = none →
      Yields (.settle role id p) s (⟨.settle role id p, s⟩ :: starts) ⟨true, some f⟩
        (.ok (), s₁.observe (.faultCaptured s₁.currentScope f.name))
  | dispatched {role id p h s s₁ s₂ starts starts' f v r} :
      Yields (.run p) s starts .clear (.error (.fault f), s₁) →
      s₁.takeHandler? f.name true = some (h, s₂) →
      Yields (.settle .handler id h)
        ((s₂.delivered f).observe (.faultDispatch s₁.currentScope f.name)) starts' v r →
      Yields (.settle role id p) s (⟨.settle role id p, s⟩ :: (starts ++ starts')) v r
  | aborted {role id p s s₁ starts a} : Yields (.run p) s starts .clear (.error (.abort a), s₁) →
      Yields (.settle role id p) s (⟨.settle role id p, s⟩ :: starts) .clear (.error (.abort a), s₁)

theorem Yields.head {w : Work} {s : Session τ} {starts : List (Start τ)} {v : Verdict}
    {r : Answer τ Unit} (h : Yields w s starts v r) : ∃ parts, starts = ⟨w, s⟩ :: parts := by
  cases h <;> exact ⟨_, rfl⟩

/-! ## There is one derivation at most -/

theorem Yields.unique {w : Work} {s : Session τ} {starts starts' : List (Start τ)}
    {v v' : Verdict} {r r' : Answer τ Unit} (h : Yields w s starts v r)
    (h' : Yields w s starts' v' r') : starts' = starts ∧ v' = v ∧ r' = r := by
  -- The premises other than derivations are answers of functions, so by induction on the parts
  -- every case but one contradicts them.
  induction h generalizing starts' v' r' with
  | refused step => cases h' <;> simp_all
  | stepped step _ ih => cases h' <;> grind
  | atomic atom => cases h' <;> simp_all [atomic?]
  | sequence _ ih => cases h' <;> grind [atomic?]
  | parallel _ ih => cases h' <;> grind [atomic?]
  | found taken _ ih => cases h' <;> grind [atomic?]
  | unopened push => cases h' <;> simp_all [atomic?]
  | unsettled push _ ih => cases h' <;> grind [atomic?]
  | settled push _ left ih => cases h' <;> grind [atomic?]
  | finished => cases h'; simp
  | passed passes _ ih => cases h' <;> grind
  | next stays _ _ ih ih' => cases h' <;> grind
  | stopped stays _ ih => cases h' <;> grind
  | quiet _ none ih => cases h' <;> grind
  | killed _ pending none ih => cases h' <;> grind
  | undone _ pending taken _ ih ih' => cases h' <;> grind
  | interrupted _ pending taken _ ih ih' => cases h' <;> grind
  | captured _ none ih => cases h' <;> grind
  | dispatched _ taken _ ih ih' => cases h' <;> grind
  | aborted _ ih => cases h' <;> grind

/-- No fault leads past the settling of an activity. -/
theorem Yields.settle_ne_fault {role : Role} {id : String} {p : Activity} {s : Session τ}
    {starts : List (Start τ)} {v : Verdict} {r : Answer τ Unit}
    (h : Yields (.settle role id p) s starts v r) (f : Fault) : r.1 ≠ .error (.fault f) := by
  generalize same : Work.settle role id p = w at h
  induction h generalizing role id p with
  | quiet | killed | undone | captured | aborted => nofun
  | interrupted body pending taken undo ih ih' => exact ih' rfl
  | dispatched body taken handling ih ih' => exact ih' rfl
  | _ => cases same

theorem Yields.settle_error {role : Role} {id : String} {p : Activity} {s s' : Session τ}
    {starts : List (Start τ)} {v : Verdict} {stop : Stop}
    (h : Yields (.settle role id p) s starts v (.error stop, s')) : ∃ a, stop = .abort a := by
  cases stop with
  | fault f => exact absurd rfl (h.settle_ne_fault f)
  | abort a => exact ⟨a, rfl⟩

/-! ## What the engine answers has a derivation -/

def Derives (run : Runner τ) : Prop :=
  ∀ p s r, run p s = some r → ∃ starts, Yields (.run p) s starts .clear r

theorem child_yields {run : Runner τ} (derives : Derives run) {ends : Bool} {p : Activity}
    {ps : List Activity} {s : Session τ} {r : Answer τ Unit}
    (stays : (s.killed && p.killable) = false) (rest : Session τ → Option (Answer τ Unit))
    (follow : ∀ s₁, rest s₁ = some r → ∃ starts, Yields (.children ends ps) s₁ starts .clear r)
    (h : (match run p s with
      | some (.ok (), s₁) => rest s₁
      | stopped => stopped) = some r) :
    ∃ starts, Yields (.children ends (p :: ps)) s starts .clear r := by
  split at h
  · next s₁ ran =>
    obtain ⟨starts, first⟩ := derives _ _ _ ran
    obtain ⟨starts', others⟩ := follow s₁ h
    exact ⟨_, .next stays first others⟩
  · next notOk =>
    obtain ⟨starts, first⟩ := derives _ _ _ h
    obtain ⟨e, s₁⟩ := r
    cases e with
    | ok u => exact absurd h (notOk s₁)
    | error stop => exact ⟨_, .stopped stays first⟩

theorem inSequence_yields {run : Runner τ} (derives : Derives run) (ps : List Activity)
    (s : Session τ) (r : Answer τ Unit) (h : inSequence run ps s = some r) :
    ∃ starts, Yields (.children true ps) s starts .clear r := by
  induction ps generalizing s with
  | nil => cases h; exact ⟨_, .finished⟩
  | cons p ps ih =>
    unfold inSequence at h
    split at h
    · next passes => cases h; exact ⟨_, .passed passes .finished⟩
    · next stays => exact child_yields derives (Bool.not_eq_true _ ▸ stays) _ ih h

theorem inParallel_yields {run : Runner τ} (derives : Derives run) (ps : List Activity)
    (s : Session τ) (r : Answer τ Unit) (h : inParallel run ps s = some r) :
    ∃ starts, Yields (.children false ps) s starts .clear r := by
  induction ps generalizing s with
  | nil => cases h; exact ⟨_, .finished⟩
  | cons p ps ih =>
    unfold inParallel at h
    split at h
    · next passes =>
      obtain ⟨starts, others⟩ := ih _ h
      exact ⟨_, .passed passes others⟩
    · next stays => exact child_yields derives (Bool.not_eq_true _ ▸ stays) _ ih h

theorem settle_yields {run : Runner τ} (derives : Derives run) (id : String) (depth : Nat)
    (role : Role) (p : Activity) (s s' : Session τ) (e : Except Stop Verdict)
    (h : settle run id depth p s = some (e, s')) :
    ∃ starts, Yields (.settle role id p) s starts (e.toOption.getD .clear)
      (e.map fun _ => (), s') := by
  -- The depth bounds how many handlers and compensations one scope settles in a row.
  induction depth generalizing role p s s' e with
  | zero => cases h
  | succ depth ih =>
    unfold settle at h
    split at h
    · cases h
    · next s₁ ran =>
      obtain ⟨starts, body⟩ := derives _ _ _ ran
      split at h
      · next none => cases h; exact ⟨_, .quiet body none⟩
      · next k pending =>
        dsimp only at h
        split at h
        · next none => cases h; exact ⟨_, .killed body pending none⟩
        · next c s₂ taken =>
          split at h
          · next v s₃ undoing =>
            obtain ⟨starts', undo⟩ := ih .compensation _ _ _ _ undoing
            cases h; exact ⟨_, .undone body pending taken undo⟩
          · next notOk =>
            obtain ⟨starts', undo⟩ := ih .compensation _ _ _ _ h
            cases e with
            | ok v => exact absurd h (notOk v s')
            | error stop => exact ⟨_, .interrupted body pending taken undo⟩
    · next f s₁ ran =>
      obtain ⟨starts, body⟩ := derives _ _ _ ran
      dsimp only at h
      split at h
      · next none => cases h; exact ⟨_, .captured body none⟩
      · next c s₂ taken =>
        rw [Session.deliver_eq] at h
        obtain ⟨starts', handling⟩ := ih .handler _ _ _ _ h
        exact ⟨_, .dispatched body taken handling⟩
    · next a s₁ ran =>
      obtain ⟨starts, body⟩ := derives _ _ _ ran
      cases h; exact ⟨_, .aborted body⟩

theorem execute_yields {run : Runner τ} (derives : Derives run) (depth : Nat) (id : String)
    (body : Activity) (autoPop : Bool) (s : Session τ) (r : Answer τ Unit)
    (h : execute run depth id body autoPop s = some r) :
    ∃ starts, Yields (.perform (.scope id body autoPop)) s starts .clear r := by
  unfold execute at h
  split at h
  · next stop s₁ push => cases h; exact ⟨_, .unopened push⟩
  · next s₁ push =>
    split at h
    · cases h
    · next stop s₂ settling =>
      obtain ⟨starts, settle⟩ := settle_yields derives id depth .body body s₁ s₂ _ settling
      cases h; exact ⟨_, .unsettled push settle⟩
    · next v s₂ settling =>
      obtain ⟨starts, settle⟩ := settle_yields derives id depth .body body s₁ s₂ _ settling
      cases h; exact ⟨_, .settled push settle rfl⟩

theorem perform_yields {run : Runner τ} (derives : Derives run) (depth : Nat) (p : Activity)
    (s : Session τ) (r : Answer τ Unit) (h : perform run depth p s = some r) :
    ∃ starts, Yields (.perform p) s starts .clear r := by
  cases p with
  | sequence ps =>
    obtain ⟨starts, children⟩ := inSequence_yields derives ps s r h
    exact ⟨_, .sequence children⟩
  | parallel ps =>
    obtain ⟨starts, children⟩ := inParallel_yields derives ps s r h
    exact ⟨_, .parallel children⟩
  | compensate id =>
    simp only [perform] at h
    cases taken : s.takeVisible? id with
    | none => exact ⟨_, .atomic (by simpa [atomic?, taken] using h)⟩
    | some t =>
      obtain ⟨c, s₁⟩ := t
      rw [taken] at h
      obtain ⟨starts, undo⟩ := derives _ _ _ h
      exact ⟨_, .found taken undo⟩
  | scope id body autoPop => exact execute_yields derives depth id body autoPop s r h
  | nil | assign | print | throw | kill | install | exit => exact ⟨_, .atomic h⟩

theorem runWithin_derives (budget : Nat) : Derives (runWithin (τ := τ) budget) := by
  induction budget with
  | zero => intro p s r h; cases h
  | succ budget ih =>
    intro p s r h
    unfold runWithin at h
    split at h
    · next stop s₁ step => cases h; exact ⟨_, .refused step⟩
    · next s₁ step =>
      obtain ⟨starts, rest⟩ := perform_yields ih budget p s₁ r h
      exact ⟨_, .stepped step rest⟩

theorem run_yields (p : Activity) (s : Session τ) :
    ∃ starts, Yields (.run p) s starts .clear (p.run s) :=
  runWithin_derives _ p s _ (Option.some_get _).symm

theorem Yields.run_eq {p : Activity} {s : Session τ} {starts : List (Start τ)} {v : Verdict}
    {r : Answer τ Unit} (h : Yields (.run p) s starts v r) : p.run s = r := by
  obtain ⟨starts', h'⟩ := run_yields p s
  exact (h.unique h').2.2

theorem execute_derivation (d : ScopeDefinition) (s : Session τ) :
    ∃ starts, Yields (.perform d.activity) s starts .clear (d.execute s) :=
  execute_yields (runWithin_derives _) _ d.id d.body d.autoPop s _ (Option.some_get _).symm

theorem runWithin_eq_some (p : Activity) (s : Session τ) (budget : Nat)
    (enough : p.nodes + s.stored ≤ budget) : runWithin budget p s = some (p.run s) := by
  obtain ⟨r, answered, -⟩ := runWithin_within budget p s enough
  obtain ⟨starts, h⟩ := runWithin_derives budget p s r answered
  rw [answered, h.run_eq]

end Engine

end Orchestration
