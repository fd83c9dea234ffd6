import Orchestration.Trace

/-!
# The grammar of event logs

A log is a sequence of blocks, one for each scope that has been opened and closed. Inside a
block stand rounds: the blocks of what the scope has run, and then what the scope has seen
of it. The events of the rounds are the block's own; those of the blocks inside are not.

Which scope takes a raised fault is not a matter of this grammar. A watch reads the log from
left to right, keeps the open scopes, and accepts after a raised fault only the event with
which the innermost of them takes it.
-/

set_option autoImplicit false

namespace Orchestration

namespace Grammar

mutual

inductive Body : Nat → List Event → Prop
  | nil {depth : Nat} : Body depth []
  | cons {depth : Nat} {es es' : List Event} : Block depth es → Body depth es' →
      Body depth (es ++ es')

/-- A scope from the opening to the closing of its frame, and to the fault that it raises if its
rounds end in one that it has captured and it has not seen a kill. -/
inductive Block : Nat → List Event → Prop
  | settled {id : String} {depth : Nat} {es own : List Event} {merged : Bool} :
      Round id (depth + 1) es own → (merged = false ↔ ∃ k, .killObserved id k ∈ own) →
      (∀ f, merged = true → own.getLast? ≠ some (.faultCaptured id f)) →
      Block depth (.scopePush id (depth + 1) :: es ++ [.scopePop id merged depth])
  | raised {id f : String} {depth : Nat} {es own : List Event} :
      Round id (depth + 1) es own → (∀ k, .killObserved id k ∉ own) →
      own.getLast? = some (.faultCaptured id f) →
      Block depth
        (.scopePush id (depth + 1) :: es ++ [.scopePop id true depth, .faultRaised id f])

/-- What a scope runs and what it sees of it, with the events that are its own. -/
inductive Round : String → Nat → List Event → List Event → Prop
  | quiet {id : String} {depth : Nat} {es : List Event} : Body depth es → Round id depth es []
  | killed {id : String} {depth : Nat} {es : List Event} (k : String) : Body depth es →
      Round id depth (es ++ [.killObserved id k]) [.killObserved id k]
  | undone {id : String} {depth : Nat} {es es' own : List Event} (k : String) : Body depth es →
      Round id depth es' own →
      Round id depth
        (es ++ .killObserved id k :: .compensationStart id :: es' ++ [.compensationEnd id])
        (.killObserved id k :: .compensationStart id :: own ++ [.compensationEnd id])
  | dispatched {id : String} {depth : Nat} {es es' own : List Event} (f : String) :
      Body depth es → Round id depth es' own →
      Round id depth (es ++ .faultDispatch id f :: es') (.faultDispatch id f :: own)
  | captured {id : String} {depth : Nat} {es : List Event} (f : String) : Body depth es →
      Round id depth (es ++ [.faultCaptured id f]) [.faultCaptured id f]

end

theorem Body.append {depth : Nat} {es es' : List Event} :
    Body depth es → Body depth es' → Body depth (es ++ es')
  | .nil, second => second
  | .cons block rest, second => by
    rw [List.append_assoc]
    exact .cons block (rest.append second)

theorem Body.single {depth : Nat} {es : List Event} (block : Block depth es) : Body depth es := by
  have alone := Body.cons block .nil
  rwa [List.append_nil] at alone

end Grammar

/-! ## Reading a log -/

def Event.track (opened : List String) : Event → List String
  | .scopePush id _ => id :: opened
  | .scopePop .. => opened.tail
  | _ => opened

def openScopes (es : List Event) : List String := es.foldl Event.track []

/-- The fault that the event has raised, so that the next one has to take it. -/
def Event.raised? : Event → Option String
  | .faultRaised _ f => some f
  | _ => none

def Event.Takes (e : Event) (scope fault : String) : Prop :=
  e = .faultDispatch scope fault ∨ e = .faultCaptured scope fault

instance (e : Event) (scope fault : String) : Decidable (e.Takes scope fault) :=
  inferInstanceAs (Decidable (_ ∨ _))

structure Watch where
  opened : List String
  raised : Option String
  deriving DecidableEq

namespace Watch

def admits (w : Watch) (e : Event) : Bool :=
  match w.raised, w.opened with
  | none, _ => true
  | some f, scope :: _ => e.Takes scope f
  | some _, [] => false

def step (w : Watch) (e : Event) : Option Watch :=
  if w.admits e then some ⟨e.track w.opened, e.raised?⟩ else none

def Reads (w : Watch) (es : List Event) (w' : Watch) : Prop := es.foldlM step w = some w'

theorem reads_nil (w : Watch) : w.Reads [] w := rfl

theorem Reads.append {w w' w'' : Watch} {es es' : List Event} (first : w.Reads es w')
    (second : w'.Reads es' w'') : w.Reads (es ++ es') w'' := by
  unfold Reads at *
  rw [List.foldlM_append, first]
  exact second

theorem reads_append {w w'' : Watch} {es es' : List Event} (whole : w.Reads (es ++ es') w'') :
    ∃ w', w.Reads es w' ∧ w'.Reads es' w'' := by
  unfold Reads at *
  rw [List.foldlM_append] at whole
  exact Option.bind_eq_some_iff.mp whole

theorem reads_cons {w w'' : Watch} {e : Event} {es : List Event} (whole : w.Reads (e :: es) w'') :
    w.admits e = true ∧ Reads ⟨e.track w.opened, e.raised?⟩ es w'' := by
  unfold Reads at *
  rw [List.foldlM_cons] at whole
  obtain ⟨w', next, rest⟩ := Option.bind_eq_some_iff.mp whole
  unfold step at next
  split at next
  · next admitted =>
    cases next
    exact ⟨admitted, rest⟩
  · cases next

theorem reads_event (opened : List String) (e : Event) :
    Reads ⟨opened, none⟩ [e] ⟨e.track opened, e.raised?⟩ := rfl

theorem reads_taking {scope fault : String} (outer : List String) {e : Event}
    (takes : e.Takes scope fault) :
    Reads ⟨scope :: outer, some fault⟩ [e] ⟨scope :: outer, none⟩ := by
  unfold Reads
  rcases takes with rfl | rfl <;> simp [step, admits, Event.Takes, Event.track, Event.raised?]

theorem Reads.opened_eq {w w' : Watch} {es : List Event} (read : w.Reads es w') :
    w'.opened = es.foldl Event.track w.opened := by
  induction es generalizing w with
  | nil =>
    cases read
    rfl
  | cons e es ih =>
    obtain ⟨-, rest⟩ := reads_cons read
    exact ih rest

theorem Reads.raised_eq {w w' : Watch} {es : List Event} {e : Event}
    (read : w.Reads (es ++ [e]) w') : w'.raised = e.raised? := by
  obtain ⟨w₁, -, last⟩ := reads_append read
  obtain ⟨-, done⟩ := reads_cons last
  cases done
  rfl

end Watch

/-- After a raised fault comes, if anything, the event with which the innermost scope that is still
open takes the fault. -/
def HandsFaultsOn (log : List Event) : Prop :=
  ∀ before id f e after, log = before ++ .faultRaised id f :: e :: after →
    ∃ scope outer, openScopes before = scope :: outer ∧ e.Takes scope f

theorem handsFaultsOn_of_reads {log : List Event} {w : Watch}
    (read : Watch.Reads ⟨[], none⟩ log w) : HandsFaultsOn log := by
  intro before id f e after split
  subst split
  obtain ⟨w₁, start, rest⟩ := Watch.reads_append read
  obtain ⟨-, rest⟩ := Watch.reads_cons rest
  obtain ⟨admitted, -⟩ := Watch.reads_cons rest
  have same : w₁.opened = openScopes before := start.opened_eq
  simp only [Watch.admits, Event.track, Event.raised?] at admitted
  rw [← same]
  cases opened : w₁.opened with
  | nil =>
    rw [opened] at admitted
    cases admitted
  | cons scope outer =>
    rw [opened] at admitted
    exact ⟨scope, outer, rfl, of_decide_eq_true admitted⟩

end Orchestration
