import Orchestration.Proofs.Frames
import Orchestration.Proofs.Guise
import Orchestration.Proofs.Installing
import Orchestration.Proofs.Observers
import Orchestration.Proofs.Truncation

/-!
# Outputs that fail

An output may fail at some of the calls that a program makes to it. Up to the first of these calls
the run is the one with an output that never fails. Without any handler that call is also the last
one: the scopes around it capture its fault, close their frames and raise it again, and it ends the
run.
-/

set_option autoImplicit false

namespace Orchestration

open Engine Session

/-! ## What an output has taken -/

namespace Host

/-- The text that the output has kept of the calls, the latest of them first. -/
def taken (h : Host) : List Call → String
  | [] => ""
  | call :: earlier =>
    h.taken earlier ++ if h.keeps && (h.refuses earlier call).isNone then call.text else ""

variable {clock : Nat → Duration} {fails : Nat → Bool}

theorem taken_reliable (clock : Nat → Duration) (calls : List Call) :
    (reliable clock).taken calls = String.join (calls.reverse.map Call.text) := by
  induction calls with
  | nil => rfl
  | cons call earlier ih =>
    rw [taken, ih, List.reverse_cons, List.map_append, String.join, String.join, List.foldl_append]
    rfl

theorem taken_failingAt {calls : List Call} (passes : ∀ n < calls.length, fails n = false) :
    (failingAt fails true clock).taken calls = (reliable clock).taken calls := by
  induction calls with
  | nil => rfl
  | cons call earlier ih =>
    have latest : fails earlier.length = false := passes _ (Nat.lt_succ_self _)
    rw [taken, taken, ih fun n below => passes n (Nat.lt_succ_of_lt below)]
    simp [failingAt, reliable, latest]

theorem taken_of_failing {calls : List Call} {n : Nat} (count : calls.length = n + 1)
    (failing : fails n = true) (first : ∀ m < n, fails m = false) :
    (failingAt fails true clock).taken calls = String.join (calls.tail.reverse.map Call.text) := by
  cases calls with
  | nil => cases count
  | cons call earlier =>
    obtain rfl : earlier.length = n := Nat.succ.inj count
    rw [List.tail_cons, ← taken_reliable clock, ← taken_failingAt first, taken]
    simp [failingAt, failing]

end Host

namespace Session

variable {τ : Type}

def Accounted (s : Session τ) : Prop := s.output = s.host.taken s.calls

theorem accounted_of_eq {s s' : Session τ} (host : s'.host = s.host) (calls : s'.calls = s.calls)
    (output : s'.output = s.output) : s'.host = s.host ∧ (s.Accounted → s'.Accounted) := by
  refine ⟨host, fun accounted => ?_⟩
  unfold Accounted at *
  rw [host, calls, output, accounted]

theorem offer_of_passed {s : Session τ} {call : Call}
    (passes : s.host.refuses s.calls call = none) :
    s.offer call = (.ok (), { s with
      calls := call :: s.calls
      output := s.output ++ if s.host.keeps then call.text else "" }) := by
  cases keeps : s.host.keeps <;> simp [offer, passes, keeps, done, String.append_empty]

theorem accounted_offer (s : Session τ) (call : Call) :
    (s.offer call).2.host = s.host ∧ (s.Accounted → (s.offer call).2.Accounted) := by
  cases refusal : s.host.refuses s.calls call with
  | none =>
    rw [offer_of_passed refusal]
    simp +contextual [Accounted, Host.taken, refusal]
  | some f => simp +contextual [offer, fail, Accounted, Host.taken, refusal]

theorem kept_accounted [Tracer τ] :
    Kept fun s s' : Session τ => s'.host = s.host ∧ (s.Accounted → s'.Accounted) where
  refl _ := ⟨rfl, id⟩
  trans first second := ⟨second.1.trans first.1, second.2 ∘ first.2⟩
  step s := by
    rw [step_snd]
    exact accounted_of_eq rfl rfl rfl
  write s p v := by
    rw [write_snd]
    exact accounted_of_eq rfl rfl rfl
  offer := accounted_offer
  kill _ _ := accounted_of_eq rfl rfl rfl
  clearKill _ := accounted_of_eq rfl rfl rfl
  install _ _ _ := accounted_of_eq rfl rfl rfl
  takeHandler taken := by
    obtain ⟨h, -, rfl⟩ := takeHandler?_eq taken
    exact accounted_of_eq rfl rfl rfl
  takeCompensation taken := by
    obtain ⟨h, -, rfl⟩ := takeCompensation?_eq taken
    exact accounted_of_eq rfl rfl rfl
  takeVisible taken := by
    obtain ⟨h, outer, -, rfl⟩ := takeVisible?_eq taken
    exact accounted_of_eq rfl rfl rfl
  observe _ _ := accounted_of_eq rfl rfl rfl
  pushScope s scope := by
    rcases s.pushScope_cases scope with eq | ⟨e, eq⟩ <;> rw [eq] <;>
      exact accounted_of_eq rfl rfl rfl
  popScope s merge := by
    rcases s.popScope_cases merge with ⟨env, -, eq⟩ | ⟨-, eq⟩ <;> rw [eq]
    · obtain ⟨handlers, enclosing, tracer, closed⟩ := s.closed_eq merge env
      rw [closed]
      exact accounted_of_eq rfl rfl rfl
    · exact accounted_of_eq rfl rfl rfl

end Session

/-! ## The same session with an output that fails -/

def Guise.troubling {τ : Type} (fails : Nat → Bool) : Guise τ τ :=
  ⟨fun h => .failingAt fails h.keeps h.clock, id, id, id⟩

namespace Session

variable {τ : Type}

def Untroubled (s : Session τ) : Prop := ∀ earlier call, s.host.refuses earlier call = none

def Spared (fails : Nat → Bool) (s : Session τ) : Prop := ∀ n < s.calls.length, fails n = false

variable {s s' : Session τ} {fails : Nat → Bool}

theorem Untroubled.of_eq (sound : s.Untroubled) (host : s'.host = s.host) : s'.Untroubled := by
  unfold Untroubled
  rw [host]
  exact sound

theorem Spared.before [Tracer τ] (spared : s'.Spared fails) (goesOn : s.Continues s') :
    s.Spared fails := fun n below =>
  spared n (Nat.lt_of_lt_of_le below goesOn.calls.length_le)

theorem offer_troubled (sound : s.Untroubled) (passes : fails s.calls.length = false)
    (call : Call) :
    (s.guised (.troubling fails)).offer call =
      ((s.offer call).1, (s.offer call).2.guised (.troubling fails)) := by
  refine offer_guised _ ?_ rfl
  rw [sound]
  simp [Guise.troubling, Host.failingAt, passes]

theorem offer_of_failing (failing : fails s.calls.length = true) (call : Call) :
    (s.guised (.troubling fails)).offer call = (.error (.fault (Host.callFault s.calls.length)),
      { s.guised (.troubling fails) with calls := call :: s.calls }) := by
  simp [Session.offer, guised, Guise.troubling, Host.failingAt, failing, fail]

theorem Untroubled.offerAll (sound : s.Untroubled) (made : List Call) :
    ∃ output, offerAll made s =
      (.ok (), { s with calls := made.reverse ++ s.calls, output := output }) := by
  induction made generalizing s with
  | nil => exact ⟨s.output, rfl⟩
  | cons call rest ih =>
    rw [Session.offerAll, offer_of_passed (sound s.calls call), List.reverse_cons,
      List.append_assoc]
    exact ih sound

theorem offerAll_of_failing (sound : s.Untroubled) {made : List Call} {n : Nat}
    (failing : fails n = true) (first : ∀ m < n, fails m = false) (low : s.calls.length ≤ n)
    (high : n < s.calls.length + made.length) :
    ∃ s', offerAll made (s.guised (.troubling fails)) =
        (.error (.fault (Host.callFault n)), s') ∧
      s'.calls.length = n + 1 ∧ s'.calls <:+ made.reverse ++ s.calls := by
  induction made generalizing s with
  | nil => exact absurd high (Nat.not_lt.mpr low)
  | cons call rest ih =>
    rw [Session.offerAll, List.reverse_cons, List.append_assoc]
    rcases Nat.eq_or_lt_of_le low with rfl | later
    · rw [offer_of_failing failing]
      exact ⟨_, rfl, rfl, List.suffix_append ..⟩
    · rw [offer_troubled sound (first _ later), offer_of_passed (sound s.calls call)]
      refine ih sound later ?_
      simp only [List.length_cons] at high ⊢
      omega

end Session

/-- As long as no call fails, the output is as good as one that never fails. -/
theorem Guise.troubling_alike {τ : Type} [Tracer τ] {fails : Nat → Bool} :
    (troubling fails : Guise τ τ).Alike Untroubled (Spared fails) fun _ => True where
  later := kept_accounted.weaken (fun _ => id) (fun first second => second ∘ first)
    fun kept sound => sound.of_eq kept.1
  earlier := kept_continues.weaken (fun _ => id) (fun first second => first ∘ second)
    fun goesOn spared => spared.before goesOn
  offer s call sound spared := by
    obtain ⟨output, made⟩ := s.offer_snd call
    rw [made] at spared
    exact offer_troubled sound (spared _ (Nat.lt_succ_self _)) call
  follows _ _ := rfl
  pending := rfl
  ok := trivial
  fault _ := trivial
  step _ _ _ := rfl
  pushScope _ id _ _ := pushScope_guised (fun _ _ => rfl) rfl id

namespace Engine

variable {τ : Type} {s : Session τ} {fails : Nat → Bool} [Tracer τ]

/-! ## The first call that fails -/

/-- No table holds a handler or a compensation. -/
def Unarmed (s : Session τ) : Prop := s.weight (deposit (fun _ => 0) 1) = 0

omit [Tracer τ] in
theorem Unarmed.not_taken {s' : Session τ} {c : Activity} (unarmed : Unarmed s) :
    ¬ deposit (fun _ => 0) 1 c + s'.weight (deposit (fun _ => 0) 1) ≤
      s.weight (deposit (fun _ => 0) 1) := by
  have fee : 1 ≤ deposit (fun _ => 0) 1 c := Nat.le_add_right ..
  unfold Unarmed at unarmed
  omega

theorem Unarmed.observed (unarmed : Unarmed s) (e : Event) : Unarmed (s.observe e) := unarmed

structure Start.Bare (x : Start τ) : Prop where
  paid : x.work.paid (fun _ => 0) 1 = 0
  unarmed : Unarmed x.session

theorem Yields.bare {w : Work} {starts : List (Start τ)} {v : Verdict} {r : Answer τ Unit}
    (h : Yields w s starts v r) (bare : (Start.mk w s).Bare) :
    (∀ x ∈ starts, x.Bare) ∧ Unarmed r.2 := by
  have covered := h.covered (fun _ => 0) 1
  have nothing : w.paid (fun _ => 0) 1 + s.weight (deposit (fun _ => 0) 1) = 0 := by
    rw [bare.paid, bare.unarmed]
  constructor
  · intro x among
    have within := covered.starts x among
    rw [nothing] at within
    exact ⟨by omega, Nat.eq_zero_of_le_zero (Nat.le_trans (Nat.le_add_left ..) within)⟩
  · have within := covered.spent
    rw [nothing] at within
    exact Nat.eq_zero_of_le_zero (Nat.le_trans (Nat.le_add_left ..) within)

/-- The fault of a failing call ends the work, or is captured where an activity is settled. -/
def Work.halted (f : Fault) : Work → Verdict × Except Stop Unit
  | .settle .. => (⟨true, some f⟩, .ok ())
  | _ => (.clear, .error (.fault f))

/-- With the failing output the work is ended by the fault of the call, which is the last of the
calls that have been made with the other one. -/
def Breaks (fails : Nat → Bool) (n : Nat) (w : Work) (s s' : Session τ) : Prop :=
  ∃ starts t, Yields w (s.guised (.troubling fails)) starts (w.halted (Host.callFault n)).1
    ((w.halted (Host.callFault n)).2, t) ∧ t.calls.length = n + 1 ∧ t.calls <:+ s'.calls

variable {n : Nat}

theorem Breaks.before {w : Work} {s₁ s₂ : Session τ} (breaks : Breaks fails n w s s₁)
    (goesOn : s₁.Continues s₂) : Breaks fails n w s s₂ := by
  obtain ⟨starts, t, halted, count, among⟩ := breaks
  exact ⟨starts, t, halted, count, among.trans goesOn.calls⟩

theorem Breaks.settle {role : Role} {id : String} {p : Activity} {s' : Session τ}
    (bare : (Start.mk (.run p) s).Bare) (breaks : Breaks fails n (.run p) s s') :
    Breaks fails n (.settle role id p) s s' := by
  obtain ⟨starts, t, halted, count, among⟩ := breaks
  have bare' : (Start.mk (.run p) (s.guised (.troubling fails))).Bare := ⟨bare.paid, bare.unarmed⟩
  have none : t.takeHandler? (Host.callFault n).name true = none := by
    cases taken : t.takeHandler? (Host.callFault n).name true with
    | none => rfl
    | some x => exact absurd (weight_takeHandler? taken) (halted.bare bare').2.not_taken
  exact ⟨_, _, .captured halted none, count, among⟩

theorem leave_captured {id : String} {t : Session τ} {k : Nat} (autoPop : Bool) (f : Fault)
    (inner : Stands (s.opened id) k t) :
    ∃ t', leave id autoPop ⟨true, some f⟩ t = (.error (.fault f), t') ∧ t'.calls = t.calls := by
  obtain ⟨env, handlers, enclosing, tracer, left⟩ := leave_snd id autoPop ⟨true, some f⟩ t
  refine ⟨(leave id autoPop ⟨true, some f⟩ t).2, ?_, by rw [left]⟩
  cases autoPop with
  | true =>
    obtain ⟨env, popped⟩ := inner.closable true
    rw [leave_of_popped popped]
    rfl
  | false => rfl

theorem Breaks.scope {id : String} {body : Activity} {autoPop : Bool} {s₁ s' : Session τ}
    (push : s.pushScope id = (.ok (), s₁)) (breaks : Breaks fails n (.settle .body id body) s₁ s') :
    Breaks fails n (.perform (.scope id body autoPop)) s s' := by
  obtain ⟨starts, t, halted, count, among⟩ := breaks
  have push' : (s.guised (.troubling fails)).pushScope id =
      (.ok (), s₁.guised (.troubling fails)) := by
    rw [pushScope_guised (fun _ _ => rfl) rfl, push]
  have stands : Stands ((s.guised (.troubling fails)).opened id) (openings starts) t := by
    rw [← opened_of_pushScope push']
    exact halted.stands ok_ne_abort
  obtain ⟨t', left, calls⟩ := leave_captured autoPop (Host.callFault n) stands
  refine ⟨_, t', .settled push' halted left, ?_, ?_⟩ <;> rw [calls] <;> assumption

theorem breaks_atomic {p : Activity} {r : Answer τ Unit} (atom : atomic? p s = some r)
    (sound : s.Untroubled) (failing : fails n = true) (first : ∀ m < n, fails m = false)
    (low : s.calls.length ≤ n) (high : n < r.2.calls.length) :
    Breaks fails n (.perform p) s r.2 := by
  have silent (same : r.2.calls = s.calls) : Breaks fails n (.perform p) s r.2 := by
    rw [same] at high
    omega
  cases p with
  | print parts =>
    cases atom
    let made := lineCalls (parts.map fun e => (e.eval s.env).text)
    obtain ⟨output, taken⟩ := sound.offerAll made
    have more : (offerAll made s).2.calls = made.reverse ++ s.calls := by rw [taken]
    have high' : n < s.calls.length + made.length := by
      change n < (offerAll made s).2.calls.length at high
      rw [more] at high
      simpa [Nat.add_comm] using high
    obtain ⟨t, halted, count, among⟩ := offerAll_of_failing sound failing first low high'
    refine ⟨_, t, .atomic (congrArg some halted), count, ?_⟩
    exact among.trans (more ▸ List.suffix_rfl)
  | assign path value =>
    cases atom
    refine silent ?_
    rw [write_snd]
  | install hs =>
    cases atom
    refine silent ?_
    rw [installAll_handlers]
    rfl
  | compensate scope =>
    simp only [atomic?] at atom
    split at atom <;> cases atom
    exact silent rfl
  | nil | throw | kill | exit => cases atom; exact silent rfl
  | sequence | parallel | scope => cases atom

theorem Yields.breaks {w : Work} {starts : List (Start τ)} {v : Verdict} {r : Answer τ Unit}
    (h : Yields w s starts v r) (bare : ∀ x ∈ starts, x.Bare) (sound : s.Untroubled)
    (failing : fails n = true) (first : ∀ m < n, fails m = false) (low : s.calls.length ≤ n)
    (high : n < r.2.calls.length) : Breaks fails n w s r.2 := by
  -- By induction on what is done with the other output: the first call that fails ends a work where
  -- nothing is installed.
  induction h with
  -- Where no call is made there is none that could fail.
  | refused step =>
    rw [stepped_eq step] at high
    exact absurd high (Nat.not_lt.mpr low)
  | @stepped p s s₁ starts r step rest ih =>
    have stepped := stepped_eq step
    obtain ⟨starts', t, halted, broken⟩ := ih (List.forall_mem_cons.mp bare).2
      (sound.of_eq (by rw [stepped])) (by rw [stepped]; exact low) high
    exact ⟨_, t, .stepped (by rw [step_guised _ rfl, step]) halted, broken⟩
  | atomic atom => exact breaks_atomic atom sound failing first low high
  | sequence children ih =>
    obtain ⟨starts', t, halted, broken⟩ := ih (List.forall_mem_cons.mp bare).2 sound low high
    exact ⟨_, t, .sequence halted, broken⟩
  | parallel children ih =>
    obtain ⟨starts', t, halted, broken⟩ := ih (List.forall_mem_cons.mp bare).2 sound low high
    exact ⟨_, t, .parallel halted, broken⟩
  -- Nothing can be taken out of the tables.
  | found taken undo ih =>
    exact absurd (weight_takeVisible? taken) (bare _ List.mem_cons_self).unarmed.not_taken
  | unopened push =>
    obtain ⟨rfl, -⟩ := pushScope_error push
    exact absurd high (Nat.not_lt.mpr low)
  | unsettled push settle ih =>
    have opened := opened_of_pushScope push
    refine Breaks.scope push (ih (List.forall_mem_cons.mp bare).2 ?_ ?_ high)
    · exact sound.of_eq (by rw [opened]; rfl)
    · rw [opened]
      exact low
  | @settled id body autoPop s s₁ s₂ starts v r push settle left ih =>
    have opened := opened_of_pushScope push
    have goesOn : s₂.Continues r.2 := left ▸ kept_continues.leave ..
    have calls : r.2.calls = s₂.calls := by
      obtain ⟨env, handlers, enclosing, tracer, eq⟩ := leave_snd id autoPop v s₂
      rw [← left, eq]
    refine Breaks.before (Breaks.scope push (ih (List.forall_mem_cons.mp bare).2 ?_ ?_ ?_)) goesOn
    · exact sound.of_eq (by rw [opened]; rfl)
    · rw [opened]
      exact low
    · rwa [← calls]
  | finished => exact absurd high (Nat.not_lt.mpr low)
  | passed skipped rest ih =>
    obtain ⟨starts', t, halted, broken⟩ := ih (List.forall_mem_cons.mp bare).2 sound low high
    exact ⟨_, t, .passed skipped halted, broken⟩
  | @next ends p ps s s₁ starts starts' r stays done rest ih ih' =>
    -- The call is one of the child, or the child is done alike and it is a later one.
    rcases Nat.lt_or_ge n s₁.calls.length with inside | behind
    · obtain ⟨starts', t, halted, broken⟩ :=
        (ih (fun x among => bare x (by simp [among])) sound low inside).before
          (kept_continues.yields rest)
      exact ⟨_, t, .stopped stays halted, broken⟩
    · have spared : s₁.Spared fails := fun m below => first m (Nat.lt_of_lt_of_le below behind)
      obtain ⟨starts', t, halted, broken⟩ := ih' (fun x among => bare x (by simp [among]))
        (sound.of_eq (kept_accounted.yields done).1) behind high
      have alike := done.guised Guise.troubling_alike sound spared trivial
      exact ⟨_, t, .next stays alike halted, broken⟩
  | stopped stays done ih =>
    obtain ⟨starts', t, halted, broken⟩ := ih (List.forall_mem_cons.mp bare).2 sound low high
    exact ⟨_, t, .stopped stays halted, broken⟩
  | quiet body none ih =>
    obtain ⟨parts, rfl⟩ := body.head
    exact (ih (List.forall_mem_cons.mp bare).2 sound low high).settle (bare _ (by simp))
  | killed body pending none ih =>
    obtain ⟨parts, rfl⟩ := body.head
    have broken := ih (List.forall_mem_cons.mp bare).2 sound low high
    exact (broken.settle (bare _ (by simp))).before (kept_continues.observe ..)
  | undone body pending taken undo ih ih' | interrupted body pending taken undo ih ih' =>
    obtain ⟨parts, rfl⟩ := body.head
    have unarmed := (body.bare (bare _ (by simp))).2
    exact absurd (weight_takeCompensation? taken) (unarmed.observed _).not_taken
  | captured body none ih =>
    obtain ⟨parts, rfl⟩ := body.head
    have broken := ih (List.forall_mem_cons.mp bare).2 sound low high
    exact (broken.settle (bare _ (by simp))).before (kept_continues.observe ..)
  | dispatched body taken handling ih ih' =>
    obtain ⟨parts, rfl⟩ := body.head
    have unarmed := (body.bare (bare _ (by simp))).2
    exact absurd (weight_takeHandler? taken) unarmed.not_taken
  | aborted body ih =>
    obtain ⟨parts, rfl⟩ := body.head
    exact (ih (List.forall_mem_cons.mp bare).2 sound low high).settle (bare _ (by simp))

end Engine

/-! ## Runs -/

namespace Program

variable {τ : Type} [Tracer τ] (program : Program) {fails : Nat → Bool} {clock : Nat → Duration}
  {tracer : τ}

theorem run_reclocked (untimed : program.limits.maxDuration = none) (clock clock' : Nat → Duration)
    (tracer : τ) :
    program.run (.reliable clock') tracer = ((program.run (.reliable clock) tracer).1,
      (program.run (.reliable clock) tracer).2.guised (.retracing id clock')) := by
  have follows : (Guise.retracing (id : τ → τ) clock').Follows := fun _ _ => rfl
  exact program.run_retraced follows untimed (.reliable clock) tracer

theorem run_of_spared (spared : (program.run (.reliable clock) tracer).2.Spared fails) :
    program.run (.failingAt fails true clock) tracer =
      ((program.run (.reliable clock) tracer).1,
        (program.run (.reliable clock) tracer).2.guised (.troubling fails)) := by
  obtain ⟨starts, derivation⟩ :=
    run_yields program.main (.start (.reliable clock) (some program.limits) tracer)
  have sound : (Session.start (.reliable clock) (some program.limits) tracer).Untroubled :=
    fun _ _ => rfl
  have same : program.main.run
      (.start (.failingAt fails true clock) (some program.limits) tracer) = _ :=
    (derivation.guised Guise.troubling_alike sound spared trivial).run_eq
  unfold run
  rw [same]
  rfl

theorem run_of_failing {n : Nat} (nothing : program.main.entries = 0) (failing : fails n = true)
    (first : ∀ m < n, fails m = false)
    (high : n < (program.run (.reliable clock) tracer).2.calls.length) :
    ∃ starts t, Yields (.run program.main)
        (.start (.failingAt fails true clock) (some program.limits) tracer) starts .clear
        (.error (.fault (Host.callFault n)), t) ∧
      t.calls.length = n + 1 ∧ t.calls <:+ (program.run (.reliable clock) tracer).2.calls := by
  obtain ⟨starts, derivation⟩ :=
    run_yields program.main (.start (.reliable clock) (some program.limits) tracer)
  have paid : (Work.run program.main).paid (fun _ => 0) 1 = 0 := by
    rw [Work.paid, charge_fees]
    exact nothing
  exact derivation.breaks (derivation.bare ⟨paid, weight_start ..⟩).1 (fun _ _ => rfl) failing first
    (Nat.zero_le n) high

end Program

theorem reverse_eq_take {calls later : List Call} {n : Nat} (count : calls.length = n)
    (among : calls <:+ later) : calls.reverse = later.reverse.take n := by
  have front := List.prefix_iff_eq_take.mp (List.reverse_prefix.mpr among)
  rwa [List.length_reverse, count] at front

/-- A program without time limit that installs no handler and closes all its frames is run with an
output that fails at some calls. As long as none of these calls is made, the run is the one with an
output that never fails. The first of them ends the run, and no call is made after it: the
fault of the call is not caught, the output is the text of the calls before it, and no frame is
left open. -/
theorem first_failing_call_ends_the_run (τ : Type) [Tracer τ] (program : Program)
    (fails : Nat → Bool) (clock clock' : Nat → Duration) (tracer : τ) :
    let smooth := program.run (.reliable clock) tracer
    let rough := program.run (.failingAt fails true clock') tracer
    program.limits.maxDuration = none → program.main.entries = 0 →
      program.main.count leavesOpen = 0 →
      ((∀ n < smooth.2.calls.length, fails n = false) →
        rough.1 = smooth.1 ∧ rough.2.output = smooth.2.output ∧ rough.2.calls = smooth.2.calls ∧
          rough.2.env = smooth.2.env ∧ rough.2.tracer = smooth.2.tracer) ∧
      ∀ n < smooth.2.calls.length, fails n = true → (∀ m < n, fails m = false) →
        rough.1 = .error (.uncaught (Host.callFault n)) ∧
        rough.2.calls.reverse = smooth.2.calls.reverse.take (n + 1) ∧
        rough.2.output = String.join ((smooth.2.calls.reverse.take n).map Call.text) ∧
        rough.2.env.enclosing = [] := by
  intro smooth rough untimed nothing closes
  have reclocked := program.run_reclocked untimed clock clock' tracer
  have calls : (program.run (.reliable clock') tracer).2.calls = smooth.2.calls := by
    rw [reclocked]
    rfl
  constructor
  · intro passes
    have spared : (program.run (.reliable clock') tracer).2.Spared fails := by
      unfold Spared
      rw [calls]
      exact passes
    have same : rough = _ := program.run_of_spared spared
    rw [same, reclocked]
    exact ⟨rfl, rfl, rfl, rfl, rfl⟩
  · intro n high failing first
    rw [← calls] at high ⊢
    obtain ⟨starts, t, halted, count, among⟩ := program.run_of_failing nothing failing first high
    have outcome : rough.1 = .error (.uncaught (Host.callFault n)) := by
      rw [Program.run_fst, halted.run_eq]
      rfl
    have session : rough.2 = t := by rw [Program.run_snd, halted.run_eq]
    have closed : openings starts = 0 := by
      have few := halted.performs_le leavesOpen
      rw [Work.count, closes, Program.weight_start] at few
      exact Nat.eq_zero_of_le_zero (Nat.le_trans (Nat.le_add_right ..) few)
    have level := (halted.stands (fault_ne_abort _)).depth_eq
    obtain ⟨host, accounted⟩ := kept_accounted.yields halted
    rw [outcome, session]
    refine ⟨rfl, reverse_eq_take count among, ?_, ?_⟩
    · have earlier : t.calls.tail.length = n := by rw [List.length_tail, count, Nat.add_sub_cancel]
      rw [accounted rfl, host, ← reverse_eq_take earlier ((List.tail_suffix _).trans among)]
      exact Host.taken_of_failing count failing first
    · rw [closed] at level
      exact List.eq_nil_of_length_eq_zero level

def purchase : Program where
  main := .scope "purchase" (.sequence [
    .print [.literal (.str "seats"), .literal (.str "two")],
    .parallel [
      .scope "pay" (.sequence [
        .print [.literal (.str "paid"), .literal (.str "cash")],
        .kill "Stop" none]) true,
      .print [.literal (.str "sent")]]]) true
  limits := ⟨some 2, some 9, none⟩

/-- Eight calls are made, so a failure of the ninth one is not met; that of the sixth one, the
blank of the second line, is met before that of the eighth. -/
theorem purchase_stops_at_a_blank :
    let smooth := purchase.run (.reliable fun _ => .zero) (Recording.empty none)
    let rough := fun fails =>
      purchase.run (.failingAt fails true (Host.steadyClock 7 250)) (Recording.empty none)
    let unmet := rough (· = 8)
    let met := rough fun n => n = 5 || n = 7
    purchase.limits.maxDuration = none ∧ purchase.main.entries = 0 ∧
      purchase.main.count leavesOpen = 0 ∧ smooth.2.calls.length = 8 ∧
      smooth.1 = .ok (.terminated ⟨"Stop", .void⟩) ∧
      unmet.1 = smooth.1 ∧ unmet.2.tracer = smooth.2.tracer ∧
      met.1 = .error (.uncaught ⟨"IOException", .str "call 5"⟩) ∧ met.2.calls.length = 6 ∧
      met.2.output = "seats two\npaid" ∧ met.2.env.enclosing = [] := by
  intro smooth rough unmet met
  have calls : smooth.2.calls.reverse = [.write "seats", .push ' ', .write "two", .push '\n',
      .write "paid", .push ' ', .write "cash", .push '\n'] := by decide +kernel
  have made : smooth.2.calls.length = 8 := by
    rw [← List.length_reverse, calls]
    rfl
  obtain ⟨same, -⟩ := first_failing_call_ends_the_run Recording purchase (· = 8) (fun _ => .zero)
    (Host.steadyClock 7 250) (Recording.empty none) rfl rfl rfl
  obtain ⟨-, stops⟩ := first_failing_call_ends_the_run Recording purchase (fun n => n = 5 || n = 7)
    (fun _ => .zero) (Host.steadyClock 7 250) (Recording.empty none) rfl rfl rfl
  obtain ⟨outcome, -, -, -, events⟩ := same (by rw [made]; decide)
  obtain ⟨ended, last, output, closed⟩ := stops 5 (by rw [made]; decide) rfl (by decide)
  rw [calls] at last output
  have six : met.2.calls.length = 6 := by
    rw [← List.length_reverse, last]
    rfl
  exact ⟨rfl, rfl, rfl, made, rfl, outcome, events, ended, six, output, closed⟩

end Orchestration
