import Orchestration.Proofs.Events
import Orchestration.Proofs.Grammar
import Orchestration.Proofs.Rollback

/-!
# The life of scopes in the log

Where every scope closes its frame, the events of a work that does not abort have the shape
that the grammar of logs gives them. The invariant behind it is that of the frames: when a
scope settles something, the current frame is the scope's own, so the events that name the
current frame and those that name the scope agree.
-/

set_option autoImplicit false

namespace Orchestration

open Grammar Session

structure Verdict.Matches (v : Verdict) (id : String) (own : List Event) : Prop where
  merge : v.merge = false ↔ ∃ k, .killObserved id k ∈ own
  captured : v.merge = true → ∀ f, own.getLast? = some (.faultCaptured id f) ↔
    ∃ fault, v.captured = some fault ∧ fault.name = f

namespace Verdict

theorem matches_quiet (id : String) : Verdict.Matches ⟨true, none⟩ id [] where
  merge := by simp
  captured := by simp

theorem matches_killed (id k : String) : Verdict.Matches ⟨false, none⟩ id [.killObserved id k] where
  merge := by simp
  captured := by simp

theorem matches_undone (id k : String) (own : List Event) (captured : Option Fault) :
    Verdict.Matches ⟨false, captured⟩ id
      (.killObserved id k :: .compensationStart id :: own ++ [.compensationEnd id]) where
  merge := by simp
  captured := by simp

theorem matches_captured (id : String) (f : Fault) :
    Verdict.Matches ⟨true, some f⟩ id [.faultCaptured id f.name] where
  merge := by simp
  captured := by simp

theorem Matches.dispatched {v : Verdict} {id : String} {own : List Event} (h : v.Matches id own)
    (f : String) : v.Matches id (.faultDispatch id f :: own) where
  merge := by
    rw [h.merge]
    simp
  captured := by
    intro merged f
    rw [← h.captured merged f, List.getLast?_cons]
    cases own.getLast? <;> simp

end Verdict

namespace Engine

variable {τ : Type}

/-- The events of a work at the given depth, and what a scope makes of them that settles it. -/
def Work.Shape (depth : Nat) (es : List Event) (v : Verdict) : Work → Prop
  | .settle _ id _ => ∃ own, Round id depth es own ∧ v.Matches id own
  | _ => Body depth es

def Work.Here (s : Session τ) : Work → Prop
  | .settle _ id _ => s.currentScope = id
  | _ => True

def Work.Inside (opened : List String) : Work → Prop
  | .settle _ id _ => ∃ outer, opened = id :: outer
  | _ => True

/-- The events can be read where the scopes are open, they leave the same scopes open, and a fault
that they have raised last is the result. -/
def Handed (result : Except Stop Unit) (es : List Event) (opened : List String) : Prop :=
  ∃ raised, Watch.Reads ⟨opened, none⟩ es ⟨opened, raised⟩ ∧
    ∀ f, raised = some f → ∃ fault, result = .error (.fault fault) ∧ fault.name = f

theorem handed_nil (result : Except Stop Unit) (opened : List String) : Handed result [] opened :=
  ⟨none, Watch.reads_nil _, nofun⟩

theorem handed_ok {es : List Event} {opened : List String} :
    Handed (.ok ()) es opened ↔ Watch.Reads ⟨opened, none⟩ es ⟨opened, none⟩ := by
  constructor
  · rintro ⟨raised, read, result⟩
    cases raised with
    | none => exact read
    | some f =>
      obtain ⟨fault, returned, -⟩ := result f rfl
      cases returned
  · intro read
    exact ⟨none, read, nofun⟩

theorem Handed.append {result : Except Stop Unit} {es es' : List Event} {opened : List String}
    (first : Handed (.ok ()) es opened) (second : Handed result es' opened) :
    Handed result (es ++ es') opened := by
  obtain ⟨raised, read, results⟩ := second
  exact ⟨raised, (handed_ok.mp first).append read, results⟩

theorem handed_event (opened : List String) {e : Event} (same : e.track opened = opened)
    (silent : e.raised? = none) : Handed (.ok ()) [e] opened := by
  rw [handed_ok]
  have read := Watch.reads_event opened e
  rwa [same, silent] at read

theorem Handed.taken {f : Fault} {es : List Event} {id : String} {outer : List String}
    (first : Handed (.error (.fault f)) es (id :: outer)) {e : Event} (takes : e.Takes id f.name) :
    Handed (.ok ()) (es ++ [e]) (id :: outer) := by
  obtain ⟨raised, read, result⟩ := first
  rw [handed_ok]
  apply read.append
  cases raised with
  | none =>
    rcases takes with rfl | rfl
    · exact Watch.reads_event (id :: outer) (.faultDispatch id f.name)
    · exact Watch.reads_event (id :: outer) (.faultCaptured id f.name)
  | some name =>
    obtain ⟨fault, same, rfl⟩ := result name rfl
    cases same
    exact Watch.reads_taking outer takes

theorem handed_block {es : List Event} {id : String} {opened : List String}
    (inner : Handed (.ok ()) es (id :: opened)) (depth : Nat) (merged : Bool) :
    Handed (.ok ()) (.scopePush id (depth + 1) :: es ++ [.scopePop id merged depth]) opened := by
  rw [handed_ok] at *
  have push := Watch.reads_event opened (.scopePush id (depth + 1))
  have pop := Watch.reads_event (id :: opened) (.scopePop id merged depth)
  exact (push.append inner).append pop

variable [Tracer τ]

theorem lifecycle_leave {id : String} {v : Verdict} {s s₂ : Session τ} {r : Answer τ Unit}
    {es own : List Event} (inner : Stands (s.opened id) 0 s₂) (logs : (s.opened id).Logs es s₂)
    (round : Round id (s.depth + 1) es own) (verdict : v.Matches id own)
    (handed : ∀ opened, Handed (.ok ()) es (id :: opened)) (left : leave id true v s₂ = r)
    (ends : ∀ a, r.1 ≠ .error (.abort a)) :
    ∃ es', s.Logs es' r.2 ∧ Block s.depth es' ∧ ∀ opened, Handed r.1 es' opened := by
  subst left
  unfold leave at ends ⊢
  rw [if_pos rfl] at ends ⊢
  rcases s₂.popScope_cases v.merge with ⟨env, popped, eq⟩ | ⟨-, eq⟩
  · have level := (inner.closed popped).depth
    rw [Session.depth, env_closed] at level
    have push : s.Logs [.scopePush id (s.depth + 1)] (s.opened id) := rfl
    have pop := s₂.logs_closed v.merge env
    rw [level, inner.currentScope] at pop
    have closed : s.Logs (.scopePush id (s.depth + 1) :: es ++ [.scopePop id v.merge s.depth])
        (s₂.closed v.merge env) := (push.append logs).append pop
    have block (opened : List String) := handed_block (handed opened) s.depth v.merge
    rw [eq]
    change ∃ es', s.Logs es' (resolve id v _).2 ∧ _ ∧ ∀ opened, Handed (resolve id v _).1 es' opened
    unfold resolve
    cases captured : v.captured with
    | none =>
      refine ⟨_, closed, .settled round verdict.merge ?_, block⟩
      intro f merged last
      obtain ⟨fault, some, -⟩ := (verdict.captured merged f).mp last
      rw [captured] at some
      cases some
    | some f =>
      cases merged : v.merge with
      | false =>
        rw [merged] at closed block
        exact ⟨_, closed, .settled round (merged ▸ verdict.merge) nofun, block⟩
      | true =>
        rw [merged] at closed block
        have last := (verdict.captured merged f.name).mpr ⟨f, captured, rfl⟩
        refine ⟨_, closed.observe (.faultRaised id f.name), ?_, ?_⟩
        · rw [List.append_assoc]
          refine .raised round ?_ last
          intro k seen
          have unmerged := verdict.merge.mpr ⟨k, seen⟩
          rw [merged] at unmerged
          cases unmerged
        · intro opened
          have read := (handed_ok.mp (block opened)).append
            (Watch.reads_event opened (.faultRaised id f.name))
          refine ⟨some f.name, read, ?_⟩
          intro name same
          cases same
          exact ⟨f, rfl, rfl⟩
  · rw [eq] at ends
    exact absurd rfl (ends (.structural .scopeUnderflow))

theorem Yields.level {w : Work} {s : Session τ} {starts : List (Start τ)} {v : Verdict}
    {r : Answer τ Unit} (h : Yields w s starts v r) (ends : ∀ a, r.1 ≠ .error (.abort a))
    (closes : openings starts = 0) : Stands s 0 r.2 := by
  have stands := h.stands ends
  rwa [closes] at stands

/-- Where every scope closes its frame, the events of a work that does not abort have the shape
that the grammar gives them, and each raised fault is handed on. -/
theorem Yields.lifecycle {w : Work} {s : Session τ} {starts : List (Start τ)} {v : Verdict}
    {r : Answer τ Unit} (h : Yields w s starts v r) (ends : ∀ a, r.1 ≠ .error (.abort a))
    (closes : openings starts = 0) (here : w.Here s) :
    ∃ es, s.Logs es r.2 ∧ w.Shape s.depth es v ∧
      ∀ opened, w.Inside opened → Handed r.1 es opened := by
  induction h with
  | @refused p s s₁ stop step =>
    cases stop with
    | fault f => exact absurd (congrArg Prod.fst step) (step_ne_fault s f)
    | abort a => exact absurd rfl (ends a)
  | stepped step rest ih =>
    rw [openings_cons] at closes
    obtain ⟨es, logs, shape, handed⟩ := ih ends closes trivial
    have depth := congrArg Session.depth (stepped_eq step)
    rw [depth] at shape
    exact ⟨es, (logs_step step).append logs, shape, handed⟩
  | atomic atom => exact ⟨[], logs_atomic atom, Body.nil, fun opened _ => handed_nil _ opened⟩
  | sequence children ih =>
    rw [openings_cons] at closes
    exact ih ends closes trivial
  | parallel children ih =>
    rw [openings_cons] at closes
    exact ih ends closes trivial
  | found taken undo ih =>
    rw [openings_cons] at closes
    obtain ⟨es, logs, shape, handed⟩ := ih ends closes trivial
    rw [(stands_takeVisible? taken).depth] at shape
    exact ⟨es, (logs_takeVisible? taken).append logs, shape, handed⟩
  | unopened push =>
    obtain ⟨-, e, rfl⟩ := pushScope_error push
    exact absurd rfl (ends _)
  | unsettled push settle ih =>
    obtain ⟨a, rfl⟩ := settle.settle_error
    exact absurd rfl (ends a)
  | @settled id body autoPop s s₁ s₂ starts v r push settle left ih =>
    rw [openings_cons] at closes
    cases opened_of_pushScope push
    cases autoPop with
    | false => cases closes
    | true =>
      obtain ⟨es, logs, ⟨own, round, verdict⟩, handed⟩ := ih nofun closes rfl
      obtain ⟨es', logs', block, handed'⟩ := lifecycle_leave (settle.level nofun closes) logs round
        verdict (fun opened => handed _ ⟨opened, rfl⟩) left ends
      exact ⟨es', logs', .single block, fun opened _ => handed' opened⟩
  | finished => exact ⟨[], logs_refl _, Body.nil, fun opened _ => handed_nil _ opened⟩
  | passed passes rest ih =>
    rw [openings_cons] at closes
    exact ih ends closes trivial
  | @next ends' p ps s s₁ starts starts' r stays first rest ih ih' =>
    rw [openings_cons, openings_append] at closes
    obtain ⟨es, logs, shape, handed⟩ := ih nofun (by omega) trivial
    obtain ⟨es', logs', shape', handed'⟩ := ih' ends (by omega) trivial
    rw [(first.level nofun (by omega)).depth] at shape'
    exact ⟨es ++ es', logs.append logs', shape.append shape',
      fun opened _ => (handed opened trivial).append (handed' opened trivial)⟩
  | stopped stays first ih =>
    rw [openings_cons] at closes
    exact ih ends closes trivial
  | @quiet role id p s s₁ starts body none ih =>
    rw [openings_cons] at closes
    obtain ⟨es, logs, shape, handed⟩ := ih nofun closes trivial
    exact ⟨es, logs, ⟨[], .quiet shape, Verdict.matches_quiet id⟩,
      fun opened _ => handed opened trivial⟩
  | @killed role id p s s₁ starts k body pending none ih =>
    rw [openings_cons] at closes
    obtain ⟨es, logs, shape, handed⟩ := ih nofun closes trivial
    refine ⟨_, logs.observe _, ⟨_, .killed k.name shape, Verdict.matches_killed id k.name⟩, ?_⟩
    intro opened _
    exact (handed opened trivial).append (handed_event opened rfl rfl)
  | @undone role id p c s s₁ s₂ s₃ starts starts' k v body pending taken undo ih ih' =>
    rw [openings_cons, openings_append] at closes
    obtain ⟨es, logs, shape, handed⟩ := ih nofun (by omega) trivial
    have started := (body.level nofun (by omega)).then (stands_undoing taken)
    obtain ⟨es', logs', ⟨own, round, -⟩, handed'⟩ :=
      ih' nofun (by omega) (started.currentScope.trans here)
    rw [started.depth] at round
    refine ⟨_, (logs.append (logs_undoing taken logs')).append ((s₃.kill k).logs_observe _),
      ⟨_, .undone k.name shape round, Verdict.matches_undone id k.name own v.captured⟩, ?_⟩
    intro opened innermost
    have seen : Handed (.ok ()) [.killObserved id k.name] opened := handed_event opened rfl rfl
    have start : Handed (.ok ()) [.compensationStart id] opened := handed_event opened rfl rfl
    have stop : Handed (.ok ()) [.compensationEnd id] opened := handed_event opened rfl rfl
    have undoing := seen.append (start.append (handed' opened innermost))
    exact ((handed opened trivial).append undoing).append stop
  | interrupted body pending taken undo ih ih' =>
    obtain ⟨a, rfl⟩ := undo.settle_error
    exact absurd rfl (ends a)
  | @captured role id p s s₁ starts f body none ih =>
    rw [openings_cons] at closes
    obtain ⟨es, logs, shape, handed⟩ := ih nofun closes trivial
    -- The event names the current frame, which is the scope's own again after its body.
    have scope := (body.level nofun closes).currentScope.trans here
    rw [scope]
    refine ⟨_, logs.observe _, ⟨_, .captured f.name shape, Verdict.matches_captured id f⟩, ?_⟩
    rintro opened ⟨outer, rfl⟩
    exact (handed _ trivial).taken (.inr rfl)
  | @dispatched role id p h s s₁ s₂ starts starts' f v r body taken handling ih ih' =>
    rw [openings_cons, openings_append] at closes
    obtain ⟨es, logs, shape, handed⟩ := ih nofun (by omega) trivial
    have level := body.level nofun (by omega)
    have delivered := level.then (stands_handling taken (.faultDispatch s₁.currentScope f.name))
    obtain ⟨es', logs', ⟨own, round, verdict⟩, handed'⟩ :=
      ih' ends (by omega) (delivered.currentScope.trans here)
    rw [delivered.depth] at round
    have again := logs_handling taken logs'
    rw [level.currentScope.trans here] at again
    refine ⟨_, logs.append again,
      ⟨_, .dispatched f.name shape round, verdict.dispatched f.name⟩, ?_⟩
    rintro opened ⟨outer, rfl⟩
    have taken := (handed (id :: outer) trivial).taken (e := .faultDispatch id f.name) (.inl rfl)
    have whole := taken.append (handed' (id :: outer) ⟨outer, rfl⟩)
    rwa [List.append_assoc] at whole
  | aborted body ih => exact absurd rfl (ends _)

/-- A scope sees a kill exactly if one of its own events tells of it. -/
theorem Yields.observesKill_iff {d : ScopeDefinition} {s s₂ : Session τ} {starts : List (Start τ)}
    {v : Verdict} (h : Yields (.settle .body d.id d.body) (s.opened d.id) starts v (.ok (), s₂))
    (closes : openings starts = 0) : ∃ es own, (s.opened d.id).Logs es s₂ ∧
      Round d.id (s.depth + 1) es own ∧
      ((∃ k, d.ObservesKill s k) ↔ ∃ k, .killObserved d.id k ∈ own) := by
  obtain ⟨es, logs, ⟨own, round, verdict⟩, -⟩ := h.lifecycle nofun closes rfl
  refine ⟨es, own, logs, round, ?_⟩
  rw [← verdict.merge]
  exact h.discards_iff.symm

end Engine

open Engine Activity

def Program.Ends (outcome : Except Failure Outcome) : Prop :=
  outcome = .ok .completed ∨ (∃ f, outcome = .ok (.terminated f)) ∨
    ∃ f, outcome = .error (.uncaught f)

theorem Program.ne_abort_of_ends {result : Except Stop Unit} {pending : Option Fault}
    (ends : Program.Ends (conclude result pending)) (a : Abort) : result ≠ .error (.abort a) := by
  rintro rfl
  rcases ends with ended | ⟨f, ended⟩ | ⟨f, ended⟩ <;> cases a <;> cases ended

/-- If every scope of a program closes its frame and the session does not abort, then the log is a
word of the grammar. After a raised fault the scope around takes that fault next, and a fault that
is raised last is the one that ends the program. -/
theorem log_has_the_lifecycle_grammar (program : Program) (host : Host)
    (closes : program.main.count leavesOpen = 0)
    (ends : Program.Ends (program.run host (Recording.empty none)).1) :
    let log := (program.run host (Recording.empty none)).2.tracer.events
    Body 0 log ∧ HandsFaultsOn log ∧
      ∀ id f, log.getLast? = some (.faultRaised id f) → ∃ fault : Fault, fault.name = f ∧
        (program.run host (Recording.empty none)).1 = .error (.uncaught fault) := by
  intro log
  obtain ⟨starts, derivation⟩ := run_yields program.main
    (.start host (some program.limits) (Recording.empty none))
  have finished := Program.ne_abort_of_ends ends
  obtain ⟨es, logs, shape, handed⟩ := derivation.lifecycle finished
    (openings_eq_zero derivation closes rfl) trivial
  obtain ⟨raised, read, result⟩ := handed [] trivial
  have recorded : log = es := congrArg Recording.events (logs.trans (Recording.foldl_observe es []))
  rw [recorded]
  refine ⟨shape, handsFaultsOn_of_reads read, ?_⟩
  intro id f last
  obtain ⟨before, rfl⟩ := List.getLast?_eq_some_iff.mp last
  obtain ⟨fault, faulted, named⟩ := result f read.raised_eq
  refine ⟨fault, named, ?_⟩
  rw [Program.run_fst, faulted]
  rfl

def cascade : Program where
  main := .scope "order" (.sequence [
    .install [(.this, .throw "Undo" none), (.fault "Pay", .kill "Stop" none)],
    .scope "payment" (.throw "Pay" none) true]) true
  limits := .none

theorem cascade_log_has_the_grammar :
    cascade.main.count leavesOpen = 0 ∧
      Program.Ends (cascade.run .standard (Recording.empty none)).1 ∧
      let log := (cascade.run .standard (Recording.empty none)).2.tracer.events
      Body 0 log ∧ HandsFaultsOn log ∧
        ∀ id f, log.getLast? = some (.faultRaised id f) → ∃ fault : Fault, fault.name = f ∧
          (cascade.run .standard (Recording.empty none)).1 = .error (.uncaught fault) := by
  have closes : cascade.main.count leavesOpen = 0 := by decide
  have ends : Program.Ends (cascade.run .standard (Recording.empty none)).1 :=
    .inr (.inl ⟨⟨"Stop", .void⟩, by rfl⟩)
  exact ⟨closes, ends, log_has_the_lifecycle_grammar cascade .standard closes ends⟩

example : (cascade.run .standard (Recording.empty none)).2.tracer.events =
    [.scopePush "order" 1, .scopePush "payment" 2, .faultCaptured "payment" "Pay",
      .scopePop "payment" true 1, .faultRaised "payment" "Pay", .faultDispatch "order" "Pay",
      .killObserved "order" "Stop", .compensationStart "order", .faultCaptured "order" "Undo",
      .compensationEnd "order", .scopePop "order" false 0] := by rfl

end Orchestration
