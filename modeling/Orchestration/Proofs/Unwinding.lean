import Orchestration.Proofs.Freezing
import Orchestration.Proofs.Promptness
import Orchestration.Proofs.Restoration
import Orchestration.Proofs.Seclusion

/-!
# Sagas unwind from the inside

A saga is a chain of scopes, some of which install a compensation for themselves, around
a kill. The kill passes over what the scopes have still to do. On the way out every scope
finds the request pending, runs its own compensation with the request out of the way, and
closes its frame without merging it, whatever the compensation has left there.
-/

set_option autoImplicit false

namespace Orchestration

open Activity Engine Session

/-- A scope of a saga: its id, its compensation, and the activities behind the next scope. -/
structure Stage where
  id : String
  undo : Option Activity
  rest : List Activity

namespace Stage

def level (l : Stage) : Level := ⟨l.id, l.undo.map fun c => [(.this, c)], l.rest⟩

/-- Termination may pass over what is behind the next scope, and the compensation does not
meddle. -/
structure Fits (l : Stage) : Prop where
  killable : allKillable l.rest = true
  secluded : ∀ c ∈ l.undo, c.count meddles = 0

theorem held (l : Stage) : l.level.table.compensations.get? l.id = l.undo := by
  obtain ⟨id, undo, rest⟩ := l
  cases undo with
  | none => rfl
  | some c => exact (Dict.get?_cons id c [] id).trans (if_pos rfl)

theorem Fits.tame {l : Stage} (fits : l.Fits) : l.level.table.weight (count meddles) = 0 := by
  obtain ⟨id, undo, rest⟩ := l
  cases undo with
  | none => rfl
  | some c =>
    have own := fits.secluded c rfl
    show 0 + 0 + (c.count meddles + 0) = 0
    rw [own]

end Stage

/-- The scopes of the stages in each other, and a kill in the innermost one. -/
def saga (stages : List Stage) (name : String) (payload : Option Expr) : Activity :=
  nest (stages.map Stage.level) (.kill name payload)

def descent (name : String) (payload : Option Expr) : List Stage → List Activity
  | [] => [.kill name payload]
  | l :: stages =>
    l.level.scope (saga stages name payload) :: l.level.body (saga stages name payload) ::
      (l.level.setup ++ descent name payload stages)

/-- The compensation of the stage, if it has one, as it is to be started: in the frame of the stage,
the one above the given depth, and with nothing pending. -/
def Stage.due (l : Stage) (depth : Nat) : List Undoing :=
  (l.undo.map fun c => ⟨l.id, c, l.id, depth + 1, none⟩).toList

def undos : Nat → List Stage → List Undoing
  | _, [] => []
  | depth, l :: stages => undos (depth + 1) stages ++ l.due depth

namespace Engine

variable {τ : Type}

theorem undoings_of_plain {starts : List (Start τ)}
    (plain : ∀ x ∈ starts, x.settles .compensation = false) : undoings starts = [] := by
  refine List.filterMap_eq_nil_iff.mpr ?_
  rintro ⟨w, s⟩ among
  have other := plain _ among
  cases w with
  | settle role id c =>
    cases role with
    | compensation => cases other
    | body | handler => rfl
  | run | perform | children => rfl

theorem undoings_of_idle {starts : List (Start τ)} (idle : Idle starts) : undoings starts = [] := by
  refine List.filterMap_eq_nil_iff.mpr ?_
  rintro ⟨w, s⟩ among
  have passes := idle _ among
  cases w with
  | children ends ps => rfl
  | _ => cases passes

variable [Tracer τ]

def Start.Aborts (x : Start τ) : Prop :=
  ∃ parts v a s', Yields x.work x.session parts v (.error (.abort a), s')

/-- What a killed scope of a saga makes of its body: its compensation, if it has one, has run, the
kill is pending, and the frames and tables around its own are as before. -/
structure Rewinds (l : Stage) (s : Session τ) (k : Fault) (starts : List (Start τ)) (v : Verdict)
    (r : Answer τ Unit) : Prop where
  discards : v.merge = false
  returned : r.1 = .ok ()
  pending : r.2.pending = some k
  frames : r.2.env.enclosing = s.env.frames
  tables : r.2.enclosing = s.tables
  undone : undoings starts = l.due s.depth
  sheltered : Sheltered starts

theorem undo_of_taken {l : Stage} {s s₁ s₂ : Session τ} {e : Event} {c : Activity} (fits : l.Fits)
    (env : s₁.env = s.env.push l.id) (handlers : s₁.handlers = l.level.table)
    (taken : (s₁.observe e).takeCompensation? l.id = some (c, s₂)) :
    c.count meddles = 0 ∧ Placid (s₂.clearKill.observe (.compensationStart l.id)) ∧
      undoings [⟨.settle .compensation l.id c,
        s₂.clearKill.observe (.compensationStart l.id)⟩] = l.due s.depth := by
  obtain ⟨h, found, rfl⟩ := takeCompensation?_eq taken
  change s₁.handlers.takeCompensation? l.id = some (c, h) at found
  rw [handlers] at found
  have gone := Handlers.weight_takeCompensation? (w := count meddles) found
  rw [fits.tame] at gone
  obtain ⟨own, left⟩ := Nat.add_eq_zero_iff.mp (Nat.eq_zero_of_le_zero gone)
  obtain ⟨c', held, eq⟩ := Option.map_eq_some_iff.mp found
  cases eq
  refine ⟨own, ⟨rfl, left⟩, ?_⟩
  rw [Stage.due, ← l.held, held]
  show [Undoing.mk l.id c s₁.env.current.scope s₁.env.depth none] = _
  rw [env]
  rfl

theorem Settled.rewinds {l : Stage} {s s₁ : Session τ} {k : Fault} {starts : List (Start τ)}
    {v : Verdict} {r : Answer τ Unit} (settled : Settled l.id (.ok (), s₁) starts v r)
    (fits : l.Fits) (pending : s₁.pending = some k) (env : s₁.env = s.env.push l.id)
    (handlers : s₁.handlers = l.level.table) (enclosing : s₁.enclosing = s.tables)
    (ends : ∀ x ∈ starts, x.settles .compensation = true → ¬ x.Aborts) :
    Rewinds l s k starts v r := by
  have frames : s₁.env.enclosing = s.env.frames := by rw [env]; rfl
  have held := l.held
  rw [← handlers] at held
  cases settled with
  | quiet none => cases none.symm.trans pending
  | killed pending' none =>
    cases pending'.symm.trans pending
    have bare : l.undo = .none := by
      cases undo : l.undo with
      | none => rfl
      | some c => exact absurd (held.trans undo) (not_held_of_none none)
    have nothing : l.due s.depth = [] := by rw [Stage.due, bare]; rfl
    exact ⟨rfl, rfl, pending, frames, enclosing, nothing.symm, .nil⟩
  | undone pending' taken undo =>
    cases pending'.symm.trans pending
    obtain ⟨own, placid, started⟩ := undo_of_taken fits env handlers taken
    have secluded := undo.secluded own placid
    have stands := undo.stands ok_ne_abort
    rw [secluded.closed] at stands
    obtain ⟨-, same⟩ := secluded.kept ok_ne_abort
    obtain ⟨h, -, rfl⟩ := takeCompensation?_eq taken
    exact ⟨rfl, rfl, rfl, stands.frames.trans frames, same.trans enclosing,
      secluded.alone.trans started, sheltered_block rfl undo⟩
  | interrupted pending' taken undo =>
    -- No fault leads past the settling, so the compensation would have to abort.
    obtain ⟨a, rfl⟩ := undo.settle_error
    obtain ⟨parts, rfl⟩ := undo.head
    exact absurd ⟨_, _, a, _, undo⟩ (ends _ List.mem_cons_self rfl)

theorem leave_discarding {id : String} {v : Verdict} {s s₂ : Session τ}
    (discards : v.merge = false) (frames : s₂.env.enclosing = s.env.frames)
    (tables : s₂.enclosing = s.tables) :
    ∃ s', leave id true v s₂ = (.ok (), s') ∧ s'.pending = s₂.pending ∧ s'.env = s.env ∧
      s'.tables = s.tables := by
  have popped : s₂.env.pop? false = some s.env := by
    unfold Environment.pop?
    rw [frames]
    rfl
  refine ⟨s₂.closed false s.env, ?_, ?_, s₂.env_closed false s.env, ?_⟩
  · rw [leave_eq_of_discarded discards, if_pos rfl, popScope_of_popped popped]
    rfl
  · obtain ⟨handlers, enclosing, tracer, closed⟩ := s₂.closed_eq false s.env
    rw [closed]
  · unfold Session.closed
    rw [tables]
    rfl

/-- A saga has run: it has returned with its kill pending and left no other trace in the variables
and the tables. The activities up to the kill are those that lead to it, and afterwards activities
have started only in the compensations of the stages, which have run from the inside. -/
structure Unwound (stages : List Stage) (name : String) (payload : Option Expr) (s : Session τ)
    (starts : List (Start τ)) (r : Answer τ Unit) : Prop where
  returned : r.1 = .ok ()
  pending : r.2.pending = some (makeFault s name payload)
  env : r.2.env = s.env
  tables : r.2.tables = s.tables
  undone : undoings starts = undos s.depth stages
  descends : ∃ before after, starts = before ++ after ∧
    begun before = descent name payload stages ∧ Sheltered after

theorem unwound_kill {name : String} {payload : Option Expr} {s : Session τ}
    {starts : List (Start τ)} {v : Verdict} {r : Answer τ Unit}
    (h : Yields (.run (.kill name payload)) s starts v r) (unlimited : Unlimited r) :
    Unwound [] name payload s starts r := by
  obtain ⟨rest, rfl, performed⟩ := h.run_cases unlimited
  cases performed with
  | atomic atom =>
    cases atom
    exact ⟨rfl, rfl, rfl, rfl, rfl, _, [], (List.append_nil _).symm, rfl, .nil⟩

theorem Unwound.around {l : Stage} {stages : List Stage} {name : String} {payload : Option Expr}
    {s : Session τ} {opening inside later rest : List (Start τ)} {v : Verdict}
    {r₁ r₂ r₃ : Answer τ Unit}
    (inner : Unwound stages name payload (s.entered l.level) inside r₁) (fits : l.Fits)
    (announced : begun opening = l.level.scope (saga stages name payload) ::
      l.level.body (saga stages name payload) :: l.level.setup)
    (plain : ∀ x ∈ opening, x.settles .compensation = false)
    (proceeds : Proceeds true l.rest r₁ later r₂) (settled : Settled l.id r₂ rest v r₃)
    (ends : ∀ x ∈ rest, x.settles .compensation = true → ¬ x.Aborts) :
    Unwound (l :: stages) name payload s (opening ++ (inside ++ (later ++ rest)))
      (andThen r₃ (leave l.id true v)) := by
  obtain ⟨e, s₁⟩ := r₁
  obtain ⟨rfl, pending, env, tables, undone, before, after, rfl, descends, sheltered⟩ := inner
  cases proceeds with
  | next others =>
    have killed : s₁.killed = true := congrArg Option.isSome pending
    -- The kill passes over the children behind the next scope, so the body returns as that one has.
    obtain ⟨rfl, idle⟩ := others.children_of_killed fits.killable killed
    have heads := List.cons.inj tables
    have rewinds := settled.rewinds fits pending env heads.1 heads.2 ends
    obtain ⟨e, s₃⟩ := r₃
    obtain ⟨discards, rfl, pending₃, frames, tables₃, own, block⟩ := rewinds
    obtain ⟨s', left, kept, env', tables'⟩ := leave_discarding discards frames tables₃
    have same := s.makeFault_entered l.level name payload
    have whole : andThen ((.ok (), s₃) : Answer τ Unit) (leave l.id true v) = (.ok (), s') := left
    rw [whole]
    refine ⟨rfl, ?_, env', tables', ?_, ?_⟩
    · exact kept.trans (pending₃.trans (congrArg some same))
    · rw [undoings_append opening, undoings_append (before ++ after), undoings_append later,
        undoings_of_plain plain, undoings_of_idle idle, undone, own]
      rfl
    · refine ⟨opening ++ before, after ++ (later ++ rest), by simp only [List.append_assoc], ?_,
        sheltered.append (idle.sheltered.append block)⟩
      rw [begun_append, announced, descends]
      rfl

theorem Yields.unwound {stages : List Stage} {name : String} {payload : Option Expr}
    {s : Session τ} {starts : List (Start τ)} {v : Verdict} {r : Answer τ Unit}
    (h : Yields (.run (saga stages name payload)) s starts v r) (fits : ∀ l ∈ stages, l.Fits)
    (quiet : s.pending = none) (unlimited : Unlimited r)
    (ends : ∀ x ∈ starts, x.settles .compensation = true → ¬ x.Aborts) :
    Unwound stages name payload s starts r := by
  -- By induction on the stages: a saga unwinds in the frame of every stage.
  induction stages generalizing s starts v r with
  | nil => exact unwound_kill h unlimited
  | cons l stages ih =>
    cases Yields.traverses (l := l.level) h quiet unlimited with
    | intro announced plain next limited proceeds settled =>
      have inner := ih next (fun l' among => fits l' (List.mem_cons_of_mem l among)) quiet limited
        fun x among => ends x (by simp [among])
      exact inner.around (fits l List.mem_cons_self) announced plain proceeds settled
        fun x among => ends x (by simp [among])

end Engine

/-- The innermost scope of a saga kills, and from there the saga unwinds: it returns with the kill
pending, the variables and tables as before, and of the activities that the kill has passed over
none has run. The scopes that have a compensation have started it, each once and the innermost
first, in their own frame and with nothing pending. -/
theorem saga_unwinds (τ : Type) [Tracer τ] (stages : List Stage) (name : String)
    (payload : Option Expr) (s : Session τ) (fits : ∀ l ∈ stages, l.Fits)
    (quiet : s.pending = none) :
    ∃ starts, Yields (.run (saga stages name payload)) s starts .clear
        ((saga stages name payload).run s) ∧
      (Unlimited ((saga stages name payload).run s) →
        (∀ x ∈ starts, x.settles .compensation = true → ¬ x.Aborts) →
        Unwound stages name payload s starts ((saga stages name payload).run s)) := by
  obtain ⟨starts, derivation⟩ := run_yields (saga stages name payload) s
  exact ⟨starts, derivation, derivation.unwound fits quiet⟩

def orders : List Stage := [
  ⟨"order", some (.print [.literal (.str "refund")]), [.print [.literal (.str "paid")]]⟩,
  ⟨"seat", none, [.nil]⟩,
  ⟨"order", some (.sequence [
    .install [(.default, .assign ⟨⟨"seat", 0⟩, []⟩ (.literal (.str "free")))],
    .scope "release" (.throw "Taken" none) true, .throw "UndoFailed" none]),
    [.throw "Late" none]⟩]

theorem orders_unwind :
    let start := Session.start .standard none ()
    let run := (saga orders "Stop" (some (.literal (.str "operator")))).run start
    (∀ l ∈ orders, l.Fits) ∧ start.pending = none ∧ Unlimited run ∧
      ∃ starts, (∀ x ∈ starts, x.settles .compensation = true → ¬ x.Aborts) ∧
        Unwound orders "Stop" (some (.literal (.str "operator"))) start starts run := by
  intro start run
  have returned : run.1 = .ok () := by rfl
  have fits : ∀ l ∈ orders, l.Fits := by
    simp only [orders, List.forall_mem_cons]
    refine ⟨⟨rfl, ?_⟩, ⟨rfl, ?_⟩, ⟨rfl, ?_⟩, List.forall_mem_nil _⟩
    · rintro c ⟨⟩
      rfl
    · rintro c ⟨⟩
    · rintro c ⟨⟩
      rfl
  have unlimited : Unlimited run := by
    intro e
    rw [returned]
    exact ok_ne_abort _
  obtain ⟨starts, derivation, unwinds⟩ :=
    saga_unwinds Unit orders "Stop" (some (.literal (.str "operator"))) start fits rfl
  have ends : ∀ x ∈ starts, x.settles .compensation = true → ¬ x.Aborts := by
    rintro x among - ⟨parts, v, a, s', aborts⟩
    have same := derivation.surfaces x among parts v a s' aborts
    exact absurd ((congrArg Prod.fst same).symm.trans returned).symm (ok_ne_abort a)
  exact ⟨fits, rfl, unlimited, starts, ends, unwinds unlimited ends⟩

end Orchestration
