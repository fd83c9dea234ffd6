import Orchestration.Proofs.Events
import Orchestration.Proofs.Frames
import Orchestration.Proofs.Inlining
import Orchestration.Proofs.Installing

/-!
# Scopes in each other

A chain of scopes, each of which installs something and goes on to the next one, is run
from the outside to its core and left from there to the outside. The run of one scope
of the chain falls into four parts: what leads to the next scope, the run of that one,
the children behind it, and what the scope makes of the result of its body.
-/

set_option autoImplicit false

namespace Orchestration

/-- A scope of a chain: its id, the handlers that it installs, and the activities behind the next
scope. -/
structure Level where
  id : String
  installs : Option (List (Target × Activity))
  rest : List Activity

namespace Level

def setup (l : Level) : List Activity := (l.installs.map .install).toList

def body (l : Level) (inner : Activity) : Activity := .sequence (l.setup ++ inner :: l.rest)

def scope (l : Level) (inner : Activity) : Activity := .scope l.id (l.body inner) true

end Level

def nest (levels : List Level) (core : Activity) : Activity := levels.foldr Level.scope core

def Level.table (l : Level) : Handlers := Handlers.empty.installAll l.id (l.installs.getD [])

namespace Session

variable {τ : Type}

def ticked (s : Session τ) : Session τ := { s with steps := s.steps + 1 }

variable [Tracer τ]

/-- The session in which the next scope of a chain is started: the scope, its body and what it
installs have each taken a step. -/
def entered (s : Session τ) (l : Level) : Session τ :=
  { s.opened l.id with steps := s.steps + (2 + l.setup.length), handlers := l.table }

theorem logs_entered (s : Session τ) (l : Level) :
    s.Logs [.scopePush l.id (s.depth + 1)] (s.entered l) := rfl

theorem makeFault_entered (s : Session τ) (l : Level) (name : String) (payload : Option Expr) :
    Engine.makeFault (s.entered l) name payload = Engine.makeFault s name payload := by
  have same := (Environment.mergesAt_push s.env l.id).value
  unfold Engine.makeFault
  cases payload with
  | none => rfl
  | some x =>
    have value : x.eval s.env = x.eval (s.entered l).env := x.eval_congr same
    rw [Option.map_some, Option.map_some, value]

end Session

namespace Engine

open Session

variable {τ : Type}

def begun (starts : List (Start τ)) : List Activity := starts.filterMap fun x =>
  match x.work with
  | .run p => some p
  | _ => none

theorem begun_append (starts starts' : List (Start τ)) :
    begun (starts ++ starts') = begun starts ++ begun starts' := List.filterMap_append

def Unlimited (r : Answer τ Unit) : Prop := ∀ e, r.1 ≠ .error (.abort (.limit e))

theorem Unlimited.of_andThen {r : Answer τ Unit} {next : Session τ → Answer τ Unit}
    (whole : Unlimited (andThen r next)) : Unlimited r := by
  obtain ⟨e, s⟩ := r
  cases e with
  | ok u => nofun
  | error stop => exact whole

/-! ## One step back from an answer -/

theorem limit_of_step {s s₁ : Session τ} {stop : Stop} (step : s.step = (.error stop, s₁)) :
    ∃ e, stop = .abort (.limit e) := by
  unfold Session.step at step
  dsimp only at step
  split at step
  · next e _ => cases step; exact ⟨e, rfl⟩
  · cases step

variable [Tracer τ]

theorem Yields.run_cases {p : Activity} {s : Session τ} {starts : List (Start τ)} {v : Verdict}
    {r : Answer τ Unit} (h : Yields (.run p) s starts v r) (unlimited : Unlimited r) :
    ∃ rest, starts = ⟨.run p, s⟩ :: rest ∧ Yields (.perform p) s.ticked rest .clear r := by
  cases h with
  | refused step =>
    obtain ⟨e, rfl⟩ := limit_of_step step
    exact absurd rfl (unlimited e)
  | stepped step rest =>
    rw [stepped_eq step] at rest
    exact ⟨_, rfl, rest⟩

inductive Proceeds (ends : Bool) (ps : List Activity) :
    Answer τ Unit → List (Start τ) → Answer τ Unit → Prop
  | next {s₁ later r} : Yields (.children ends ps) s₁ later .clear r →
      Proceeds ends ps (.ok (), s₁) later r
  | stopped {s₁ stop} : Proceeds ends ps (.error stop, s₁) [] (.error stop, s₁)

theorem Proceeds.unlimited {ends : Bool} {ps : List Activity} {r r₁ : Answer τ Unit}
    {later : List (Start τ)} (h : Proceeds ends ps r₁ later r) (unlimited : Unlimited r) :
    Unlimited r₁ := by
  cases h with
  | next others => nofun
  | stopped => exact unlimited

theorem Yields.children_cases {ends : Bool} {p : Activity} {ps : List Activity} {s : Session τ}
    {starts : List (Start τ)} {v : Verdict} {r : Answer τ Unit}
    (h : Yields (.children ends (p :: ps)) s starts v r) (quiet : s.pending = none) :
    ∃ first later r₁, starts = ⟨.children ends (p :: ps), s⟩ :: (first ++ later) ∧
      Yields (.run p) s first .clear r₁ ∧ Proceeds ends ps r₁ later r := by
  cases h with
  | passed passes =>
    rw [Session.killed, quiet] at passes
    cases passes
  | next stays first others => exact ⟨_, _, _, rfl, first, .next others⟩
  | stopped stays first => exact ⟨_, [], _, by rw [List.append_nil], first, .stopped⟩

/-- What a scope makes of the result of its body, or of what has run in the place of the body: the
works that it starts, the verdict and the answer. -/
inductive Settled (id : String) :
    Answer τ Unit → List (Start τ) → Verdict → Answer τ Unit → Prop
  | quiet {s₁} : s₁.pending = none → Settled id (.ok (), s₁) [] .clear (.ok (), s₁)
  | killed {s₁ k} : s₁.pending = some k →
      (s₁.observe (.killObserved id k.name)).takeCompensation? id = none →
      Settled id (.ok (), s₁) [] ⟨false, none⟩ (.ok (), s₁.observe (.killObserved id k.name))
  | undone {s₁ s₂ s₃ c k v rest} : s₁.pending = some k →
      (s₁.observe (.killObserved id k.name)).takeCompensation? id = some (c, s₂) →
      Yields (.settle .compensation id c) (s₂.clearKill.observe (.compensationStart id)) rest v
        (.ok (), s₃) →
      Settled id (.ok (), s₁) rest ⟨false, v.captured⟩
        (.ok (), (s₃.kill k).observe (.compensationEnd id))
  | interrupted {s₁ s₂ s₃ c k v rest stop} : s₁.pending = some k →
      (s₁.observe (.killObserved id k.name)).takeCompensation? id = some (c, s₂) →
      Yields (.settle .compensation id c) (s₂.clearKill.observe (.compensationStart id)) rest v
        (.error stop, s₃) →
      Settled id (.ok (), s₁) rest .clear (.error stop, s₃)
  | captured {s₁ f} : s₁.takeHandler? f.name true = none →
      Settled id (.error (.fault f), s₁) [] ⟨true, some f⟩
        (.ok (), s₁.observe (.faultCaptured s₁.currentScope f.name))
  | dispatched {s₁ s₂ h f rest v r} : s₁.takeHandler? f.name true = some (h, s₂) →
      Yields (.settle .handler id h)
        ((s₂.delivered f).observe (.faultDispatch s₁.currentScope f.name)) rest v r →
      Settled id (.error (.fault f), s₁) rest v r
  | aborted {s₁ a} : Settled id (.error (.abort a), s₁) [] .clear (.error (.abort a), s₁)

theorem Settled.unlimited {id : String} {r r₁ : Answer τ Unit} {rest : List (Start τ)}
    {v : Verdict} (h : Settled id r₁ rest v r) (unlimited : Unlimited r) : Unlimited r₁ := by
  cases h with
  | aborted => exact unlimited
  | _ => nofun

theorem Yields.settle_cases {role : Role} {id : String} {p : Activity} {s : Session τ}
    {starts : List (Start τ)} {v : Verdict} {r : Answer τ Unit}
    (h : Yields (.settle role id p) s starts v r) :
    ∃ first rest r₁, starts = ⟨.settle role id p, s⟩ :: (first ++ rest) ∧
      Yields (.run p) s first .clear r₁ ∧ Settled id r₁ rest v r := by
  cases h with
  | quiet body none => exact ⟨_, [], _, by rw [List.append_nil], body, .quiet none⟩
  | killed body pending none =>
    exact ⟨_, [], _, by rw [List.append_nil], body, .killed pending none⟩
  | undone body pending taken undo => exact ⟨_, _, _, rfl, body, .undone pending taken undo⟩
  | interrupted body pending taken undo =>
    exact ⟨_, _, _, rfl, body, .interrupted pending taken undo⟩
  | captured body none => exact ⟨_, [], _, by rw [List.append_nil], body, .captured none⟩
  | dispatched body taken handling => exact ⟨_, _, _, rfl, body, .dispatched taken handling⟩
  | aborted body => exact ⟨_, [], _, by rw [List.append_nil], body, .aborted⟩

theorem Yields.scope_cases {id : String} {body : Activity} {autoPop : Bool} {s : Session τ}
    {starts : List (Start τ)} {v : Verdict} {r : Answer τ Unit}
    (h : Yields (.perform (.scope id body autoPop)) s starts v r) (unlimited : Unlimited r) :
    ∃ block v₁ r₁, starts = ⟨.perform (.scope id body autoPop), s⟩ :: block ∧
      Yields (.settle .body id body) (s.opened id) block v₁ r₁ ∧
      r = andThen r₁ (leave id autoPop v₁) := by
  cases h with
  | atomic atom => cases atom
  | unopened push =>
    obtain ⟨-, e, rfl⟩ := pushScope_error push
    exact absurd rfl (unlimited e)
  | unsettled push settle =>
    rw [opened_of_pushScope push] at settle
    exact ⟨_, _, _, rfl, settle, rfl⟩
  | settled push settle left =>
    rw [opened_of_pushScope push] at settle
    exact ⟨_, _, _, rfl, settle, left.symm⟩

theorem Yields.sequence_cases {ps : List Activity} {s : Session τ} {starts : List (Start τ)}
    {v : Verdict} {r : Answer τ Unit} (h : Yields (.perform (.sequence ps)) s starts v r) :
    ∃ rest, starts = ⟨.perform (.sequence ps), s⟩ :: rest ∧
      Yields (.children true ps) s rest .clear r := by
  cases h with
  | atomic atom => cases atom
  | sequence children => exact ⟨_, rfl, children⟩

theorem Yields.install_cases {hs : List (Target × Activity)} {s : Session τ}
    {starts : List (Start τ)} {v : Verdict} {r : Answer τ Unit}
    (h : Yields (.perform (.install hs)) s starts v r) :
    starts = [⟨.perform (.install hs), s⟩] ∧
      r = (.ok (), { s with handlers := s.handlers.installAll s.currentScope hs }) := by
  cases h with
  | atomic atom =>
    cases atom
    exact ⟨rfl, congrArg (Prod.mk _) (installAll_handlers hs s)⟩

/-! ## The run of one scope -/

/-- The run of a scope of a chain: what is started until the next scope is, with the run of that,
behind it the other children, and in the end what the scope makes of its body. -/
inductive Traverses (l : Level) (inner : Activity) (s : Session τ) :
    List (Start τ) → Answer τ Unit → Prop
  | intro {opening inside later rest v r₁ r₂ r₃} :
      begun opening = l.scope inner :: l.body inner :: l.setup →
      (∀ x ∈ opening, x.settles .compensation = false) →
      Yields (.run inner) (s.entered l) inside .clear r₁ → Unlimited r₁ →
      Proceeds true l.rest r₁ later r₂ → Settled l.id r₂ rest v r₃ →
      Traverses l inner s (opening ++ (inside ++ (later ++ rest)))
        (andThen r₃ (leave l.id true v))

theorem Yields.body_cases {l : Level} {inner : Activity} {s : Session τ}
    {starts : List (Start τ)} {v : Verdict} {r : Answer τ Unit}
    (h : Yields (.run (l.body inner)) (s.ticked.opened l.id) starts v r)
    (quiet : s.pending = none) (unlimited : Unlimited r) :
    ∃ opening inside later r₁, starts = opening ++ (inside ++ later) ∧
      begun opening = l.body inner :: l.setup ∧
      (∀ x ∈ opening, x.settles .compensation = false) ∧
      Yields (.run inner) (s.entered l) inside .clear r₁ ∧ Proceeds true l.rest r₁ later r := by
  obtain ⟨id, installs, rest⟩ := l
  obtain ⟨starts₁, rfl, performed⟩ := h.run_cases unlimited
  obtain ⟨starts₂, rfl, children⟩ := performed.sequence_cases
  cases installs with
  | none =>
    obtain ⟨inside, later, r₁, rfl, next, others⟩ := children.children_cases quiet
    exact ⟨[_, _, _], inside, later, r₁, rfl, rfl, by simp [Start.settles], next, others⟩
  | some hs =>
    obtain ⟨starts₃, starts₄, r₁, rfl, install, others⟩ := children.children_cases quiet
    obtain ⟨starts₅, rfl, installed⟩ := install.run_cases (others.unlimited unlimited)
    obtain ⟨rfl, rfl⟩ := installed.install_cases
    cases others with
    | next others =>
      obtain ⟨inside, later, r₁, rfl, next, others⟩ := others.children_cases quiet
      exact ⟨[_, _, _, _, _, _], inside, later, r₁, rfl, rfl, by simp [Start.settles], next,
        others⟩

theorem Yields.traverses {l : Level} {inner : Activity} {s : Session τ} {starts : List (Start τ)}
    {v : Verdict} {r : Answer τ Unit} (h : Yields (.run (l.scope inner)) s starts v r)
    (quiet : s.pending = none) (unlimited : Unlimited r) : Traverses l inner s starts r := by
  obtain ⟨starts₁, rfl, performed⟩ := h.run_cases unlimited
  obtain ⟨block, v₁, r₃, rfl, settle, rfl⟩ := performed.scope_cases unlimited
  obtain ⟨starts₂, rest, r₂, rfl, ran, settled⟩ := settle.settle_cases
  have bodied : Unlimited r₂ := settled.unlimited unlimited.of_andThen
  obtain ⟨opening, inside, later, r₁, rfl, announced, others, next, proceeds⟩ :=
    ran.body_cases quiet bodied
  have announced' : begun (⟨.run (l.scope inner), s⟩ :: ⟨.perform (l.scope inner), s.ticked⟩ ::
      ⟨.settle .body l.id (l.body inner), s.ticked.opened l.id⟩ :: opening) =
      l.scope inner :: l.body inner :: l.setup := congrArg (l.scope inner :: ·) announced
  have whole := Traverses.intro announced' (by simpa [Start.settles] using others) next
    (proceeds.unlimited bodied) proceeds settled
  simp only [List.cons_append, List.append_assoc] at whole ⊢
  exact whole

end Engine

end Orchestration
