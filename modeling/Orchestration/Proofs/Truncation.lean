import Orchestration.Proofs.Bounds
import Orchestration.Proofs.Widening

/-!
# Limits only truncate

A run that a limit stops is the beginning of the run under wider limits: all that has been printed
and observed is part of the longer run as well. A run under an operation limit stops at
the first step past it, and does so exactly if the run without the limit gets that far.
-/

set_option autoImplicit false

namespace Orchestration

open Session

variable {τ : Type}

namespace Engine

/-! ## Where a limit error comes from -/

theorem atomic_ne_limit {p : Activity} {s : Session τ} {r : Answer τ Unit}
    (atom : atomic? p s = some r) (e : LimitError) : r.1 ≠ .error (.abort (.limit e)) := by
  intro cut
  cases p with
  | assign path value =>
    cases atom
    unfold Session.write at cut
    dsimp only at cut
    split at cut <;> cases cut
  | print parts => cases atom; exact offerAll_ne_abort _ s _ cut
  | compensate scope =>
    simp only [atomic?] at atom
    split at atom <;> cases atom
    cases cut
  | nil | throw name payload | kill name payload | install hs | exit => cases atom; cases cut
  | sequence ps | parallel ps | scope id body autoPop => cases atom

theorem leave_ne_limit [Tracer τ] (id : String) (autoPop : Bool) (v : Verdict) (s : Session τ)
    (e : LimitError) : (leave id autoPop v s).1 ≠ .error (.abort (.limit e)) := by
  unfold leave
  split
  · rcases s.popScope_cases v.merge with ⟨env, -, popped⟩ | ⟨-, popped⟩ <;> rw [popped]
    · exact resolve_ne_abort id v _ _
    · intro cut
      cases cut
  · exact resolve_ne_abort id v s _

/-! ## Steps under an operation limit -/

def Counted (n : Nat) (r : Answer τ Unit) : Prop :=
  r.2.steps ≤ n ∨ r.1 = .error (.abort (.limit (.operation n (n + 1))))

theorem Counted.of_ok {n : Nat} {s : Session τ} (counted : Counted n (.ok (), s)) :
    s.steps ≤ n := by
  rcases counted with few | ended
  · exact few
  · cases ended

theorem Counted.of_fault {n : Nat} {s : Session τ} {f : Fault}
    (counted : Counted n (.error (.fault f), s)) : s.steps ≤ n := by
  rcases counted with few | ended
  · exact few
  · cases ended

theorem counted_step {l : Limits} {n : UInt64} {s s₁ : Session τ} {e : Except Stop Unit}
    (limits : s.limits = some l) (limited : l.maxOperations = some n) (few : s.steps ≤ n.toNat)
    (step : s.step = (e, s₁)) : Counted n.toNat (e, s₁) := by
  have steps : s₁.steps = s.steps + 1 := by rw [stepped_eq step]
  by_cases last : s.steps = n.toNat
  · right
    have refusal : s.refusal? = some (.operation n.toNat (s.steps + 1)) := by
      rw [refusal?_eq limits]
      exact Limits.stepError?_of_passed limited (by omega)
    cases (step_of_refusal refusal).symm.trans step
    rw [last]
  · left
    change s₁.steps ≤ n.toNat
    omega

variable [Tracer τ]

theorem Yields.counted {l : Limits} {n : UInt64} (limited : l.maxOperations = some n) {w : Work}
    {s : Session τ} {starts : List (Start τ)} {v : Verdict} {r : Answer τ Unit}
    (h : Yields w s starts v r) (limits : s.limits = some l) (few : s.steps ≤ n.toNat) :
    Counted n.toNat r := by
  induction h with
  | refused step => exact counted_step limits limited few step
  | @stepped p s s₁ starts r step rest ih =>
    have limits₁ : s₁.limits = some l := by rw [stepped_eq step]; exact limits
    exact ih limits₁ (counted_step limits limited few step).of_ok
  | @atomic p s r atom =>
    obtain ⟨env, handlers, pending, calls, output, eq, -⟩ := atomic_snd atom
    left
    rw [eq]
    exact few
  | sequence children ih => exact ih limits few
  | parallel children ih => exact ih limits few
  | found taken undo ih =>
    have limits₁ := (kept_limits.takeVisible taken).trans limits
    obtain ⟨h, outer, -, rfl⟩ := takeVisible?_eq taken
    exact ih limits₁ few
  | unopened push =>
    obtain ⟨rfl, -⟩ := pushScope_error push
    exact .inl few
  | unsettled push settle ih =>
    cases opened_of_pushScope push
    exact ih limits few
  | @settled id body autoPop s s₁ s₂ starts v r push settle left ih =>
    cases opened_of_pushScope push
    obtain ⟨env, handlers, enclosing, tracer, eq⟩ := leave_snd id autoPop v s₂
    have inner := (ih limits few).of_ok
    left
    rw [← left, eq]
    exact inner
  | finished => exact .inl few
  | passed skipped rest ih => exact ih limits few
  | next stays first rest ih ih' =>
    exact ih' ((kept_limits.yields first).trans limits) (ih limits few).of_ok
  | stopped stays first ih => exact ih limits few
  | quiet body none ih => exact ih limits few
  | killed body pending none ih => exact .inl (ih limits few).of_ok
  | undone body pending taken undo ih ih' =>
    have limits₁ := (kept_limits.takeCompensation taken).trans
      ((kept_limits.yields body).trans limits)
    obtain ⟨h, -, rfl⟩ := takeCompensation?_eq taken
    exact .inl (ih' limits₁ (ih limits few).of_ok).of_ok
  | interrupted body pending taken undo ih ih' =>
    have limits₁ := (kept_limits.takeCompensation taken).trans
      ((kept_limits.yields body).trans limits)
    obtain ⟨h, -, rfl⟩ := takeCompensation?_eq taken
    exact ih' limits₁ (ih limits few).of_ok
  | captured body none ih => exact .inl (ih limits few).of_fault
  | dispatched body taken handling ih ih' =>
    have limits₁ := (kept_limits.takeHandler taken).trans ((kept_limits.yields body).trans limits)
    obtain ⟨h, -, rfl⟩ := takeHandler?_eq taken
    exact ih' limits₁ (ih limits few).of_fault
  | aborted body ih => exact ih limits few

/-! ## What follows the part of a work that is done first -/

variable {R : Session τ → Session τ → Prop} {l l' : Limits}

theorem Yields.children_first (kept : Kept R) {ends : Bool} {p : Activity} {ps : List Activity}
    {s : Session τ} {starts : List (Start τ)} {v : Verdict} {r : Answer τ Unit}
    (h : Yields (.children ends (p :: ps)) s starts v r)
    (stays : (s.killed && p.killable) = false) :
    ∃ parts r₁, Yields (.run p) s parts .clear r₁ ∧ R r₁.2 r.2 := by
  cases h with
  | passed skipped => rw [stays] at skipped; cases skipped
  | next _ first rest => exact ⟨_, _, first, kept.yields rest⟩
  | stopped _ first => exact ⟨_, _, first, kept.refl _⟩

theorem Yields.settle_first (kept : Kept R) {role : Role} {id : String} {p : Activity}
    {s : Session τ} {starts : List (Start τ)} {v : Verdict} {r : Answer τ Unit}
    (h : Yields (.settle role id p) s starts v r) :
    ∃ parts r₁, Yields (.run p) s parts .clear r₁ ∧ R r₁.2 r.2 := by
  cases h with
  | quiet body => exact ⟨_, _, body, kept.refl _⟩
  | killed body => exact ⟨_, _, body, kept.observe ..⟩
  | undone body pending taken undo =>
    exact ⟨_, _, body, kept.trans (kept.undoing taken)
      (kept.trans (kept.yields undo) (kept.restored ..))⟩
  | interrupted body pending taken undo =>
    exact ⟨_, _, body, kept.trans (kept.undoing taken) (kept.yields undo)⟩
  | captured body => exact ⟨_, _, body, kept.observe ..⟩
  | dispatched body taken handling =>
    exact ⟨_, _, body, kept.trans (kept.handling taken _) (kept.yields handling)⟩
  | aborted body => exact ⟨_, _, body, kept.refl _⟩

theorem Yields.settle_undoing (kept : Kept R) {role : Role} {id : String} {p c : Activity}
    {s s₁ s₂ : Session τ} {starts parts : List (Start τ)} {v : Verdict} {r : Answer τ Unit}
    {k : Fault} (h : Yields (.settle role id p) s starts v r)
    (body : Yields (.run p) s parts .clear (.ok (), s₁)) (pending : s₁.pending = some k)
    (taken : (s₁.observe (.killObserved id k.name)).takeCompensation? id = some (c, s₂)) :
    ∃ parts v₂ r₂, Yields (.settle .compensation id c)
      (s₂.clearKill.observe (.compensationStart id)) parts v₂ r₂ ∧ R r₂.2 r.2 := by
  cases h with
  | quiet body' none =>
    obtain ⟨-, -, same⟩ := body.unique body'
    cases same
    cases pending.symm.trans none
  | killed body' pending' none =>
    obtain ⟨-, -, same⟩ := body.unique body'
    cases same
    cases pending.symm.trans pending'
    cases taken.symm.trans none
  | undone body' pending' taken' undo =>
    obtain ⟨-, -, same⟩ := body.unique body'
    cases same
    cases pending.symm.trans pending'
    cases taken.symm.trans taken'
    exact ⟨_, _, _, undo, kept.restored ..⟩
  | interrupted body' pending' taken' undo =>
    obtain ⟨-, -, same⟩ := body.unique body'
    cases same
    cases pending.symm.trans pending'
    cases taken.symm.trans taken'
    exact ⟨_, _, _, undo, kept.refl _⟩
  | captured body' | dispatched body' | aborted body' =>
    obtain ⟨-, -, same⟩ := body.unique body'
    cases same

theorem Yields.settle_handling {role : Role} {id : String} {p h : Activity}
    {s s₁ s₂ : Session τ} {starts parts : List (Start τ)} {v : Verdict} {r : Answer τ Unit}
    {f : Fault} (derivation : Yields (.settle role id p) s starts v r)
    (body : Yields (.run p) s parts .clear (.error (.fault f), s₁))
    (taken : s₁.takeHandler? f.name true = some (h, s₂)) :
    ∃ parts, Yields (.settle .handler id h)
      ((s₂.delivered f).observe (.faultDispatch s₁.currentScope f.name)) parts v r := by
  cases derivation with
  | quiet body' | killed body' | undone body' | interrupted body' | aborted body' =>
    obtain ⟨-, -, same⟩ := body.unique body'
    cases same
  | captured body' none =>
    obtain ⟨-, -, same⟩ := body.unique body'
    cases same
    cases taken.symm.trans none
  | dispatched body' taken' handling =>
    obtain ⟨-, -, same⟩ := body.unique body'
    cases same
    cases taken.symm.trans taken'
    exact ⟨_, handling⟩

/-- What a limit has stopped is the beginning of what is done under wider limits: all operations
keep a relation that leads on from the session where it stopped. -/
theorem Yields.overtaken (kept : Kept R) (within : l.Within l') {w : Work} {s : Session τ}
    {starts starts' : List (Start τ)} {v v' : Verdict} {r r' : Answer τ Unit}
    (h : Yields w s starts v r) (h' : Yields w (s.under l') starts' v' r')
    (limits : s.limits = some l) {e : LimitError} (cut : r.1 = .error (.abort (.limit e))) :
    R (r.2.under l') r'.2 := by
  induction h generalizing starts' v' r' with
  | refused step =>
    cases h' with
    | refused step' =>
      cases stepped_under step step'
      exact kept.refl _
    | stepped step' rest =>
      cases stepped_under step step'
      exact kept.yields rest
  | @stepped p s s₁ starts r step rest ih =>
    have limits₁ : s₁.limits = some l := by rw [stepped_eq step]; exact limits
    have step₁ := step_under within limits step
    cases h' with
    | refused step' => cases step₁.symm.trans step'
    | stepped step' rest' =>
      cases step₁.symm.trans step'
      exact ih rest' limits₁ cut
  | atomic atom => exact absurd cut (atomic_ne_limit atom e)
  | sequence children ih =>
    cases h' with
    | atomic atom => cases atom
    | sequence children' => exact ih children' limits cut
  | parallel children ih =>
    cases h' with
    | atomic atom => cases atom
    | parallel children' => exact ih children' limits cut
  | @found id c s s₁ starts r taken undo ih =>
    have limits₁ := (kept_limits.takeVisible taken).trans limits
    have taken₁ : (s.under l').takeVisible? id = some (c, s₁.under l') :=
      (takeVisible?_guised (.widening l') s id).trans (by rw [taken]; rfl)
    cases h' with
    | atomic atom => simp [atomic?, taken₁] at atom
    | found taken' undo' =>
      cases taken₁.symm.trans taken'
      exact ih undo' limits₁ cut
  | unopened push =>
    -- The scope that was refused is what the longer run does next.
    obtain ⟨rfl, -⟩ := pushScope_error push
    exact kept.yields h'
  | @unsettled id body autoPop s s₁ s₂ starts stop v push settle ih =>
    have limits₁ : s₁.limits = some l := by rw [opened_of_pushScope push]; exact limits
    have push₁ := pushScope_under within limits push
    cases h' with
    | atomic atom => cases atom
    | unopened push' => cases push₁.symm.trans push'
    | unsettled push' settle' =>
      cases push₁.symm.trans push'
      exact ih settle' limits₁ cut
    | settled push' settle' left' =>
      cases push₁.symm.trans push'
      subst left'
      exact kept.trans (ih settle' limits₁ cut) (kept.leave ..)
  | @settled id body autoPop s s₁ s₂ starts v r push settle left ih =>
    subst left
    exact absurd cut (leave_ne_limit id autoPop v s₂ e)
  | finished => cases cut
  | passed skipped rest ih =>
    cases h' with
    | passed skipped' rest' => exact ih rest' limits cut
    | next stays' => cases skipped.symm.trans stays'
    | stopped stays' => cases skipped.symm.trans stays'
  | next stays first rest ih ih' =>
    have limits₁ := (kept_limits.yields first).trans limits
    -- Up to the part that was cut the two runs do the same.
    have first₁ := first.under within limits passes_ok
    cases h' with
    | passed skipped' => cases stays.symm.trans skipped'
    | next stays' first' rest' =>
      obtain ⟨-, -, same⟩ := first₁.unique first'
      cases same
      exact ih' rest' limits₁ cut
    | stopped stays' first' =>
      obtain ⟨-, -, same⟩ := first₁.unique first'
      cases same
  | stopped stays first ih =>
    -- The longer run may go on past the part that was cut.
    obtain ⟨parts, r₁, first', onward⟩ := h'.children_first kept stays
    exact kept.trans (ih first' limits cut) onward
  | quiet | killed | undone | captured => cases cut
  | @interrupted role id p c s s₁ s₂ s₃ starts starts' f v stop body pending taken undo ih ih' =>
    have limits₁ := (kept_limits.takeCompensation taken).trans
      ((kept_limits.yields body).trans limits)
    have taken₁ : ((s₁.under l').observe (.killObserved id f.name)).takeCompensation? id =
        some (c, s₂.under l') :=
      (takeCompensation?_guised (.widening l') (s₁.observe _) id).trans (by rw [taken]; rfl)
    obtain ⟨parts, v₂, r₂, undo', onward⟩ := h'.settle_undoing kept
      (body.under within limits passes_ok) pending taken₁
    exact kept.trans (ih' undo' limits₁ cut) onward
  | @dispatched role id p h s s₁ s₂ starts starts' f v r body taken handling ih ih' =>
    have limits₁ := (kept_limits.takeHandler taken).trans ((kept_limits.yields body).trans limits)
    have taken₁ : (s₁.under l').takeHandler? f.name true = some (h, s₂.under l') :=
      (takeHandler?_guised (.widening l') s₁ f.name true).trans (by rw [taken]; rfl)
    obtain ⟨parts, handling'⟩ := h'.settle_handling (body.under within limits (passes_fault _))
      taken₁
    exact ih' handling' limits₁ cut
  | aborted body ih =>
    obtain ⟨parts, r₁, body', onward⟩ := h'.settle_first kept
    exact kept.trans (ih body' limits cut) onward

end Engine

/-! ## What a run leaves behind -/

variable [Tracer τ]

/-- What the earlier session has printed, observed and counted the later one has too. -/
structure Session.Continues (s s' : Session τ) : Prop where
  steps : s.steps ≤ s'.steps
  calls : s.calls <:+ s'.calls
  output : ∃ more, s'.output = s.output ++ more
  events : ∃ es, s.Logs es s'

namespace Session

theorem continues_of_eq {s s' : Session τ} (steps : s.steps ≤ s'.steps) (calls : s'.calls = s.calls)
    (output : s'.output = s.output) (tracer : s'.tracer = s.tracer) : s.Continues s' where
  steps := steps
  calls := calls ▸ List.suffix_rfl
  output := ⟨"", by rw [output, String.append_empty]⟩
  events := ⟨[], tracer⟩

theorem continues_offer (s : Session τ) (call : Call) : s.Continues (s.offer call).2 := by
  unfold offer
  dsimp only
  split
  · exact ⟨Nat.le_refl _, List.suffix_cons .., ⟨"", String.append_empty.symm⟩, [], rfl⟩
  · split
    · exact ⟨Nat.le_refl _, List.suffix_cons .., ⟨call.text, rfl⟩, [], rfl⟩
    · exact ⟨Nat.le_refl _, List.suffix_cons .., ⟨"", String.append_empty.symm⟩, [], rfl⟩

theorem continues_observe (s : Session τ) (e : Event) : s.Continues (s.observe e) :=
  ⟨Nat.le_refl _, List.suffix_rfl, ⟨"", String.append_empty.symm⟩, [e], rfl⟩

theorem Continues.trans {s s' s'' : Session τ} (first : s.Continues s')
    (second : s'.Continues s'') : s.Continues s'' where
  steps := Nat.le_trans first.steps second.steps
  calls := first.calls.trans second.calls
  output := by
    obtain ⟨more, eq⟩ := first.output
    obtain ⟨more', eq'⟩ := second.output
    exact ⟨more ++ more', by rw [eq', eq, String.append_assoc]⟩
  events := by
    obtain ⟨es, logs⟩ := first.events
    obtain ⟨es', logs'⟩ := second.events
    exact ⟨es ++ es', logs.append logs'⟩

theorem kept_continues : Kept (Continues : Session τ → Session τ → Prop) where
  refl _ := continues_of_eq (Nat.le_refl _) rfl rfl rfl
  trans := Continues.trans
  step s := by
    rw [step_snd]
    exact continues_of_eq (Nat.le_succ _) rfl rfl rfl
  write s p v := by
    rw [write_snd]
    exact continues_of_eq (Nat.le_refl _) rfl rfl rfl
  offer := continues_offer
  kill _ _ := continues_of_eq (Nat.le_refl _) rfl rfl rfl
  clearKill _ := continues_of_eq (Nat.le_refl _) rfl rfl rfl
  install _ _ _ := continues_of_eq (Nat.le_refl _) rfl rfl rfl
  takeHandler taken := by
    obtain ⟨h, -, rfl⟩ := takeHandler?_eq taken
    exact continues_of_eq (Nat.le_refl _) rfl rfl rfl
  takeCompensation taken := by
    obtain ⟨h, -, rfl⟩ := takeCompensation?_eq taken
    exact continues_of_eq (Nat.le_refl _) rfl rfl rfl
  takeVisible taken := by
    obtain ⟨h, outer, -, rfl⟩ := takeVisible?_eq taken
    exact continues_of_eq (Nat.le_refl _) rfl rfl rfl
  observe := continues_observe
  pushScope s scope := by
    rcases s.pushScope_cases scope with eq | ⟨e, eq⟩ <;> rw [eq]
    · have below : s.Continues
          { s with env := s.env.push scope, handlers := .empty, enclosing := s.tables } :=
        continues_of_eq (Nat.le_refl _) rfl rfl rfl
      exact below.trans (continues_observe _ _)
    · exact continues_of_eq (Nat.le_refl _) rfl rfl rfl
  popScope s merge := by
    rcases s.popScope_cases merge with ⟨env, -, eq⟩ | ⟨-, eq⟩ <;> rw [eq]
    · refine Continues.trans ?_ (continues_observe _ _)
      cases s.enclosing <;> exact continues_of_eq (Nat.le_refl _) rfl rfl rfl
    · exact continues_of_eq (Nat.le_refl _) rfl rfl rfl

end Session

open Engine

namespace Program

variable {main : Activity} {l l' : Limits}

theorem run_of_within (within : l.Within l') (host : Host) (tracer : τ)
    (passes : ∀ e, (Program.run ⟨main, l⟩ host tracer).1 = .error (.limit e) →
      l.scopeDepth = l'.scopeDepth ∧ ∀ m c, e ≠ .operation m c) :
    Program.run ⟨main, l'⟩ host tracer =
      ((Program.run ⟨main, l⟩ host tracer).1, (Program.run ⟨main, l⟩ host tracer).2.under l') := by
  obtain ⟨starts, derivation⟩ := run_yields main (.start host (some l) tracer)
  have moved := derivation.under within rfl fun e ended => passes e (by rw [run_fst, ended]; rfl)
  have same : main.run (.start host (some l') tracer) = _ := moved.run_eq
  unfold Program.run
  rw [same]
  rfl

theorem continues_of_within (within : l.Within l') (host : Host) (tracer : τ) {e : LimitError}
    (cut : (Program.run ⟨main, l⟩ host tracer).1 = .error (.limit e)) :
    ((Program.run ⟨main, l⟩ host tracer).2.under l').Continues
      (Program.run ⟨main, l'⟩ host tracer).2 := by
  obtain ⟨starts, derivation⟩ := run_yields main (.start host (some l) tracer)
  obtain ⟨starts', derivation'⟩ := run_yields main (.start host (some l') tracer)
  exact derivation.overtaken kept_continues within derivation' rfl (conclude_eq_limit cut)

theorem run_counted {n : UInt64} (limited : l.maxOperations = some n) (host : Host) (tracer : τ) :
    (Program.run ⟨main, l⟩ host tracer).2.steps ≤ n.toNat ∨
      (Program.run ⟨main, l⟩ host tracer).1 =
        .error (.limit (.operation n.toNat (n.toNat + 1))) := by
  obtain ⟨starts, derivation⟩ := run_yields main (.start host (some l) tracer)
  rcases derivation.counted limited rfl (Nat.zero_le _) with few | ended
  · exact .inl few
  · right
    rw [run_fst, ended]
    rfl

theorem run_operation {n : UInt64} (limited : l.maxOperations = some n) {host : Host} {tracer : τ}
    {m c : Nat} (cut : (Program.run ⟨main, l⟩ host tracer).1 = .error (.limit (.operation m c))) :
    m = n.toNat ∧ c = n.toNat + 1 ∧ (Program.run ⟨main, l⟩ host tracer).2.steps = c := by
  obtain ⟨starts, derivation⟩ := run_yields main (.start host (some l) tracer)
  obtain ⟨counted, passed, limit, set, rfl⟩ :=
    (derivation.refuses _ (conclude_eq_limit cut)).operation
  have limits := kept_limits.yields derivation
  rw [effectiveLimits, limits] at set
  cases limited.symm.trans set
  rcases run_counted limited host tracer with few | ended
  · rw [run_snd, ← counted] at few
    omega
  · cases cut.symm.trans ended
    exact ⟨rfl, rfl, counted.symm⟩

theorem operation_iff (main : Activity) (host : Host) (tracer : τ) (depth : Option UInt64)
    (n : UInt64) :
    (∃ m c, (Program.run ⟨main, ⟨depth, some n, none⟩⟩ host tracer).1 =
        .error (.limit (.operation m c))) ↔
      n.toNat < (Program.run ⟨main, ⟨depth, none, none⟩⟩ host tracer).2.steps := by
  have within : Limits.Within ⟨depth, some n, none⟩ ⟨depth, none, none⟩ :=
    ⟨Nat.le_refl _, nofun, rfl, rfl⟩
  constructor
  · rintro ⟨m, c, cut⟩
    obtain ⟨-, rfl, steps⟩ := run_operation rfl cut
    have further := (continues_of_within within host tracer cut).steps
    change (Program.run ⟨main, ⟨depth, some n, none⟩⟩ host tracer).2.steps ≤ _ at further
    omega
  · intro more
    have limited : (Limits.mk depth (some n) none).maxOperations = some n := rfl
    rcases run_counted limited host tracer with few | ended
    · apply Classical.byContradiction
      intro uncut
      have same := run_of_within within host tracer fun e ended =>
        ⟨rfl, fun m c operation => uncut ⟨m, c, operation ▸ ended⟩⟩
      rw [same] at more
      exact Nat.not_lt_of_le few more
    · exact ⟨_, _, ended⟩

theorem recording_unlimited (program : Program) (host : Host) :
    (program.run host (Recording.empty none)).2.tracer.limit = none := by
  obtain ⟨starts, derivation⟩ := run_yields program.main
    (.start host (some program.limits) (Recording.empty none))
  obtain ⟨es, logs⟩ := (kept_continues.yields derivation).events
  have recorded := logs.trans (Recording.foldl_observe es [])
  rw [run_snd, recorded]

end Program

theorem Session.Continues.events_prefix {s s' : Session Recording} (continues : s.Continues s')
    (unlimited : s.tracer.limit = none) : s.tracer.events <+: s'.tracer.events := by
  obtain ⟨es, logs⟩ := continues.events
  have whole : s.tracer = ⟨none, s.tracer.events⟩ := by rw [← unlimited]
  rw [Session.Logs, whole, Recording.foldl_observe] at logs
  rw [logs]
  exact List.prefix_append s.tracer.events es

/-- Under wider limits, none of which bounds the time, a run that no limit has stopped comes to the
same, and one that a limit has stopped goes on from there. An operation limit stops a run exactly
if the run without it makes more steps, at the first of these. -/
theorem limits_only_truncate :
    (∀ (main : Activity) (host : Host) (l l' : Limits), l.Within l' →
      let strict := Program.run ⟨main, l⟩ host (Recording.empty none)
      let wide := Program.run ⟨main, l'⟩ host (Recording.empty none)
      ((∀ e, strict.1 ≠ .error (.limit e)) →
        wide.1 = strict.1 ∧ wide.2.output = strict.2.output ∧ wide.2.calls = strict.2.calls ∧
          wide.2.env = strict.2.env ∧ wide.2.tracer = strict.2.tracer) ∧
      ∀ e, strict.1 = .error (.limit e) →
        (∃ more, wide.2.output = strict.2.output ++ more) ∧ strict.2.calls <:+ wide.2.calls ∧
          strict.2.tracer.events <+: wide.2.tracer.events) ∧
    ∀ (main : Activity) (host : Host) (depth : Option UInt64) (n : UInt64),
      let limited := Program.run ⟨main, ⟨depth, some n, none⟩⟩ host (Recording.empty none)
      let free := Program.run ⟨main, ⟨depth, none, none⟩⟩ host (Recording.empty none)
      ((∃ m c, limited.1 = .error (.limit (.operation m c))) ↔ n.toNat < free.2.steps) ∧
        ∀ m c, limited.1 = .error (.limit (.operation m c)) → m = n.toNat ∧ c = n.toNat + 1 := by
  constructor
  · intro main host l l' within strict wide
    constructor
    · intro uncut
      have same : wide = (strict.1, strict.2.under l') :=
        Program.run_of_within within host (Recording.empty none) fun e cut =>
          absurd cut (uncut e)
      rw [same]
      exact ⟨rfl, rfl, rfl, rfl, rfl⟩
    · intro e cut
      have continues := Program.continues_of_within within host (Recording.empty none) cut
      exact ⟨continues.output, continues.calls,
        continues.events_prefix (Program.recording_unlimited ⟨main, l⟩ host)⟩
  · intro main host depth n limited free
    refine ⟨Program.operation_iff main host (Recording.empty none) depth n, ?_⟩
    intro m c cut
    obtain ⟨limit, count, -⟩ := Program.run_operation rfl cut
    exact ⟨limit, count⟩

def twoLines : Activity :=
  .sequence [.print [.literal (.str "one")], .print [.literal (.str "two")]]

theorem twoLines_truncated :
    let strict : Limits := ⟨none, some 2, none⟩
    let wide : Limits := ⟨none, some 3, none⟩
    let run := fun limits => Program.run ⟨twoLines, limits⟩ .standard (Recording.empty none)
    strict.Within wide ∧ (run strict).1 = .error (.limit (.operation 2 3)) ∧
      (∃ more, (run wide).2.output = (run strict).2.output ++ more) ∧
      wide.Within .none ∧ (∀ e, (run wide).1 ≠ .error (.limit e)) ∧
      (run .none).1 = (run wide).1 ∧ (run .none).2.output = (run wide).2.output := by
  intro strict wide run
  have narrow : strict.Within wide :=
    ⟨Nat.le_refl _, fun most set => ⟨2, rfl, by cases set; decide⟩, rfl, rfl⟩
  have unlimited : wide.Within .none := ⟨Nat.le_refl _, nofun, rfl, rfl⟩
  have cut : (run strict).1 = .error (.limit (.operation 2 3)) := rfl
  have uncut (e : LimitError) : (run wide).1 ≠ .error (.limit e) := by
    have completed : (run wide).1 = .ok .completed := rfl
    rw [completed]
    nofun
  have same := (limits_only_truncate.1 twoLines .standard wide .none unlimited).1 uncut
  exact ⟨narrow, cut, ((limits_only_truncate.1 twoLines .standard strict wide narrow).2 _ cut).1,
    unlimited, uncut, same.1, same.2.1⟩

end Orchestration
