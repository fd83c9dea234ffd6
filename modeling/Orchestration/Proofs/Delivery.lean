import Orchestration.Proofs.Nesting
import Orchestration.Proofs.Writing

/-!
# A fault goes to the innermost scope that can take it

In a chain of scopes that install handlers, around a throw, every scope without a handler for
the fault holds the fault, merges its frame and raises the fault again. The first scope on the
way that has one runs it: the last one for the fault itself, or else the last fallback. By then
the scopes inside have handed their compensations on, and the scopes outside are as they were.
-/

set_option autoImplicit false

namespace Orchestration

open Engine Session

/-- A scope of a tower: its id and the handlers that it installs. -/
structure Layer where
  id : String
  handlers : List (Target × Activity)

namespace Layer

def level (l : Layer) : Level := ⟨l.id, some l.handlers, []⟩

/-- What the scope can take a fault with: the last handler for it, or else the last fallback. -/
def handler? (l : Layer) (name : String) : Option Activity :=
  (lastOf l.handlers (.fault name)).or (lastOf l.handlers .default)

theorem held (l : Layer) (target : Target) :
    l.level.table.held l.id target = lastOf l.handlers target := by
  have installed := Handlers.empty.held_installAll l.id l.handlers target
  have nothing : Handlers.empty.held l.id target = none := by cases target <;> rfl
  rw [nothing, Option.or_none] at installed
  exact installed

theorem owned (l : Layer) : l.level.table.Owned l.id :=
  (Handlers.owned_empty l.id).installAll l.handlers

end Layer

/-- The scopes of the layers in each other, and a throw in the innermost one. -/
def tower (layers : List Layer) (name : String) (payload : Option Expr) : Activity :=
  nest (layers.map Layer.level) (.throw name payload)

/-! ## What the scopes leave behind -/

/-- The compensations that the scopes hand on when all of them have ended. -/
def leftBy : List Layer → Dict Activity
  | [] => []
  | l :: layers => l.level.table.compensations.merge (leftBy layers)

theorem nodup_leftBy (layers : List Layer) : (leftBy layers).names.Nodup := by
  induction layers with
  | nil => exact List.nodup_nil
  | cons l layers ih => exact Dict.nodup_merge l.owned.nodup _

theorem get?_leftBy_of_not_mem {layers : List Layer} {id : String}
    (other : id ∉ layers.map Layer.id) : (leftBy layers).get? id = none := by
  induction layers with
  | nil => rfl
  | cons l layers ih =>
    rw [List.map_cons, List.mem_cons, not_or] at other
    rw [leftBy, Dict.get?_merge _ (nodup_leftBy layers), ih other.2, Option.none_or]
    exact l.owned.get?_of_ne (Ne.symm other.1)

theorem get?_leftBy {layers : List Layer} (distinct : (layers.map Layer.id).Nodup) {l : Layer}
    (among : l ∈ layers) : (leftBy layers).get? l.id = lastOf l.handlers .this := by
  induction layers with
  | nil => exact absurd among List.not_mem_nil
  | cons m layers ih =>
    obtain ⟨fresh, distinct⟩ := List.nodup_cons.mp distinct
    rw [leftBy, Dict.get?_merge _ (nodup_leftBy layers)]
    rcases List.mem_cons.mp among with rfl | inside
    · rw [get?_leftBy_of_not_mem fresh, Option.none_or]
      exact l.held .this
    · have apart : m.id ≠ l.id := fun same => fresh (same ▸ List.mem_map_of_mem inside)
      rw [ih distinct inside, m.owned.get?_of_ne apart, Option.or_none]

def entries : Nat → List Layer → List Event
  | _, [] => []
  | depth, l :: layers => .scopePush l.id (depth + 1) :: entries (depth + 1) layers

def passages (name : String) : Nat → List Layer → List Event
  | _, [] => []
  | depth, l :: layers => passages name (depth + 1) layers ++
    [.faultCaptured l.id name, .scopePop l.id true depth, .faultRaised l.id name]

namespace Session

variable {τ : Type}

theorem takeVisible?_of_held {s : Session τ} {id : String} {c : Activity}
    (held : s.handlers.compensations.get? id = some c) :
    (s.takeVisible? id).map Prod.fst = some c := by
  unfold takeVisible? Session.tables Handlers.takeInnermost? Handlers.takeCompensation?
  rw [held]
  rfl

variable [Tracer τ]

def escaped (s : Session τ) (layers : List Layer) (name : String) (steps : Nat) : Session τ :=
  { s with
    steps := steps
    handlers := { s.handlers with
      compensations := s.handlers.compensations.merge (leftBy layers) }
    tracer := (entries s.depth layers ++ passages name s.depth layers).foldl Tracer.observe
      s.tracer }

theorem logs_escaped (s : Session τ) (layers : List Layer) (name : String) (steps : Nat) :
    s.Logs (entries s.depth layers ++ passages name s.depth layers)
      (s.escaped layers name steps) := rfl

theorem held_escaped (s : Session τ) (l : Layer) (layers : List Layer) (name : String)
    (steps : Nat) :
    let reached := (s.entered l.level).escaped layers name steps
    (reached.handlers.held l.id (.fault name)).or (reached.handlers.held l.id .default) =
      l.handler? name := by
  show (l.level.table.held l.id (.fault name)).or (l.level.table.held l.id .default) = _
  rw [l.held, l.held]
  rfl

theorem takeHandler?_escaped (s : Session τ) {l : Layer} (layers : List Layer) {name : String}
    (steps : Nat) {c : Activity} (handler : l.handler? name = some c) :
    ∃ h, h.compensations = leftBy (l :: layers) ∧
      ((s.entered l.level).escaped layers name steps).takeHandler? name true =
        some (c, { (s.entered l.level).escaped layers name steps with handlers := h }) := by
  obtain ⟨h, taken, kept⟩ :=
    Handlers.takeFault?_of_held l.id ((s.held_escaped l layers name steps).trans handler)
  refine ⟨h, kept, ?_⟩
  rw [takeHandler?, taken]
  rfl

theorem takeHandler?_escaped_none (s : Session τ) {l : Layer} (layers : List Layer)
    {name : String} (steps : Nat) (none : l.handler? name = none) :
    ((s.entered l.level).escaped layers name steps).takeHandler? name true = .none := by
  rw [takeHandler?,
    Handlers.takeFault?_of_none l.id ((s.held_escaped l layers name steps).trans none)]
  rfl

end Session

namespace Engine

variable {τ : Type} [Tracer τ]

theorem leave_escaped {l : Layer} {layers : List Layer} {name : String} {s : Session τ}
    {f : Fault} (named : f.name = name) (steps : Nat) :
    leave l.id true ⟨true, some f⟩
        (((s.entered l.level).escaped layers name steps).observe (.faultCaptured l.id name)) =
      (.error (.fault f), s.escaped (l :: layers) name steps) := by
  have popped : (((s.entered l.level).escaped layers name steps).observe
      (.faultCaptured l.id name)).env.pop? true = some s.env := s.env.pop?_push l.id
  rw [leave_of_popped popped]
  simp only [escaped, entries, passages, List.foldl_append, List.foldl_cons]
  subst named
  rfl

theorem Yields.escapes {layers : List Layer} {name : String} {payload : Option Expr}
    {s : Session τ} {starts : List (Start τ)} {v : Verdict} {r : Answer τ Unit}
    (h : Yields (.run (tower layers name payload)) s starts v r)
    (bare : ∀ l ∈ layers, l.handler? name = none) (quiet : s.pending = none)
    (unlimited : Unlimited r) :
    r = (.error (.fault (makeFault s name payload)), s.escaped layers name r.2.steps) := by
  -- By induction on the layers: a fault that none of them can take leaves them all.
  induction layers generalizing s starts v r with
  | nil =>
    obtain ⟨rest, rfl, performed⟩ := h.run_cases unlimited
    cases performed with
    | atomic atom => cases atom; rfl
  | cons l layers ih =>
    cases Yields.traverses (l := l.level) h quiet unlimited with
    | @intro opening inside later rest v r₁ r₂ r₃ announced plain next limited proceeds settled =>
      have inner := ih next (fun m among => bare m (List.mem_cons_of_mem l among)) quiet limited
      rw [s.makeFault_entered l.level] at inner
      generalize r₁.2.steps = steps at inner
      subst inner
      cases proceeds
      have passed := s.takeHandler?_escaped_none layers steps (bare l List.mem_cons_self)
      cases settled with
      | captured => exact leave_escaped rfl steps
      | dispatched taken => cases passed.symm.trans taken

/-- The fault has been taken by a scope and its handler is about to start: the scopes inside have
ended, and nothing has been taken from those outside. -/
structure Arrives (outer : List Layer) (l : Layer) (inner : List Layer) (f : Fault)
    (s s' : Session τ) : Prop where
  scope : s'.currentScope = l.id
  depth : s'.depth = s.depth + outer.length + 1
  payload : s'.env.value (faultSlot l.id f.name) = f.payload
  name : s'.env.value (faultSlot l.id nameSlot) = .str f.name
  visible : ∀ m ∈ l :: inner, ∀ c, lastOf m.handlers .this = some c →
    (s'.takeVisible? m.id).map Prod.fst = some c
  enclosing : s'.enclosing = (outer.map fun m => m.level.table).reverse ++ s.tables
  events : s.Logs (entries s.depth (outer ++ l :: inner) ++
    passages f.name (s.depth + outer.length + 1) inner ++ [.faultDispatch l.id f.name]) s'

theorem arrives_here {l : Layer} {inner : List Layer} {f : Fault} {s s₂ : Session τ}
    (distinct : ((l :: inner).map Layer.id).Nodup) (proper : f.name ≠ nameSlot)
    (scope : s₂.currentScope = l.id) (depth : s₂.depth = s.depth + 1)
    (kept : s₂.handlers.compensations = leftBy (l :: inner)) (tables : s₂.enclosing = s.tables)
    (events : s.Logs (entries s.depth (l :: inner) ++ passages f.name (s.depth + 1) inner) s₂) :
    Arrives [] l inner f s ((s₂.delivered f).observe (.faultDispatch l.id f.name)) where
  scope := (s₂.stands_delivered f).currentScope.trans scope
  depth := (s₂.stands_delivered f).depth.trans depth
  payload := by
    rw [← scope]
    exact s₂.payload_delivered proper
  name := by
    rw [← scope]
    exact s₂.name_delivered f
  visible m among c this := by
    apply takeVisible?_of_held
    show s₂.handlers.compensations.get? m.id = some c
    rw [kept, get?_leftBy distinct among, this]
  enclosing := tables
  events := by
    have delivered : s₂.Logs [] (s₂.delivered f) := rfl
    have whole := (events.append delivered).observe (.faultDispatch l.id f.name)
    rw [List.append_nil] at whole
    exact whole

theorem Arrives.around {m : Layer} {outer : List Layer} {l : Layer} {inner : List Layer}
    {f : Fault} {s s' : Session τ} (h : Arrives outer l inner f (s.entered m.level) s') :
    Arrives (m :: outer) l inner f s s' where
  scope := h.scope
  depth := by
    have depth := h.depth
    have entered : (s.entered m.level).depth = s.depth + 1 := rfl
    rw [List.length_cons]
    omega
  payload := h.payload
  name := h.name
  visible := h.visible
  enclosing := by
    rw [h.enclosing, List.map_cons, List.reverse_cons, List.append_assoc]
    rfl
  events := by
    have whole := (s.logs_entered m.level).append h.events
    have depth : (s.entered m.level).depth + outer.length + 1 =
        s.depth + (m :: outer).length + 1 := by
      show s.depth + 1 + outer.length + 1 = _
      rw [List.length_cons]
      omega
    rw [depth] at whole
    exact whole

theorem Yields.arrives {outer inner : List Layer} {l : Layer} {name : String}
    {payload : Option Expr} {c : Activity} {s : Session τ} {starts : List (Start τ)} {v : Verdict}
    {r : Answer τ Unit} (h : Yields (.run (tower (outer ++ l :: inner) name payload)) s starts v r)
    (handler : l.handler? name = some c) (bare : ∀ m ∈ inner, m.handler? name = none)
    (distinct : ((l :: inner).map Layer.id).Nodup) (proper : name ≠ nameSlot)
    (quiet : s.pending = none) (unlimited : Unlimited r) :
    ∃ x ∈ starts, x.work = .settle .handler l.id c ∧
      Arrives outer l inner (makeFault s name payload) s x.session := by
  -- By induction on the scopes outside: the handler of the innermost scope that has one is started.
  induction outer generalizing s starts v r with
  | nil =>
    cases Yields.traverses (l := l.level) h quiet unlimited with
    | @intro opening inside later rest v r₁ r₂ r₃ announced plain next limited proceeds settled =>
      have inside := next.escapes bare quiet limited
      rw [s.makeFault_entered l.level] at inside
      generalize r₁.2.steps = steps at inside
      subst inside
      cases proceeds
      obtain ⟨h, kept, found⟩ := s.takeHandler?_escaped inner steps handler
      cases settled with
      | captured none => cases none.symm.trans found
      | dispatched taken handling =>
        cases found.symm.trans taken
        obtain ⟨parts, rfl⟩ := handling.head
        refine ⟨_, List.mem_append_right _ (List.mem_append_right _
          (List.mem_append_right _ List.mem_cons_self)), rfl, ?_⟩
        exact arrives_here distinct proper rfl rfl kept rfl
          ((s.logs_entered l.level).append ((s.entered l.level).logs_escaped inner name steps))
  | cons m outer ih =>
    cases Yields.traverses (l := m.level) h quiet unlimited with
    | intro announced plain next limited proceeds settled =>
      obtain ⟨x, among, work, arrives⟩ := ih next quiet limited
      rw [s.makeFault_entered m.level] at arrives
      exact ⟨x, by simp only [List.mem_append, among, true_or, or_true], work, arrives.around⟩

end Engine

/-- In a tower of scopes with distinct ids, a fault goes to the innermost scope with a handler for
it. That handler starts, it is the last one for the fault itself or else the last fallback, and it
finds the payload and the name of the fault. The scopes inside have raised the fault again and
handed their compensations on, and those outside are untouched. Where no scope has a handler, the
fault leaves all of them and is the answer. -/
theorem fault_goes_to_innermost_taker (τ : Type) [Tracer τ] (layers : List Layer) (name : String)
    (payload : Option Expr) (s : Session τ) (distinct : (layers.map Layer.id).Nodup)
    (proper : name ≠ nameSlot) (quiet : s.pending = none)
    (unlimited : Unlimited ((tower layers name payload).run s)) :
    let f := makeFault s name payload
    let r := (tower layers name payload).run s
    ∃ starts, Yields (.run (tower layers name payload)) s starts .clear r ∧
      (∀ outer l inner c, layers = outer ++ l :: inner → l.handler? name = some c →
        (∀ m ∈ inner, m.handler? name = none) →
        ∃ x ∈ starts, x.work = .settle .handler l.id c ∧ Arrives outer l inner f s x.session) ∧
      ((∀ l ∈ layers, l.handler? name = none) →
        r = (.error (.fault f), s.escaped layers name r.2.steps)) := by
  intro f r
  obtain ⟨starts, derivation⟩ := run_yields (tower layers name payload) s
  refine ⟨starts, derivation, ?_, ?_⟩
  · rintro outer l inner c rfl handler bare
    have inside : ((l :: inner).map Layer.id).Nodup := by
      rw [List.map_append] at distinct
      exact (List.nodup_append.mp distinct).2.1
    exact derivation.arrives handler bare inside proper quiet unlimited
  · intro bare
    exact derivation.escapes bare quiet unlimited

/-- A shop with a handler for lost parcels, around an order with two fallbacks, around a parcel
with two compensations. -/
def shop : Layer := ⟨"shop", [(.fault "Lost", .print [.literal (.str "refund")])]⟩

def order : Layer where
  id := "order"
  handlers := [(.default, .nil), (.this, .exit),
    (.default, .print [.path (faultSlot "order" nameSlot), .path (faultSlot "order" "Lost")])]

def parcel : Layer := ⟨"parcel", [(.this, .exit), (.fault "Late", .exit), (.this, .nil)]⟩

theorem order_takes_lost_parcel :
    let start := Session.start .standard none ()
    let lost := tower [shop, order, parcel] "Lost" (some (.literal (.int 7)))
    ([shop, order, parcel].map Layer.id).Nodup ∧ "Lost" ≠ nameSlot ∧ start.pending = none ∧
      Unlimited (lost.run start) ∧
      ∃ starts, Yields (.run lost) start starts .clear (lost.run start) ∧
        ∃ x ∈ starts, x.work = .settle .handler "order"
            (.print [.path (faultSlot "order" nameSlot), .path (faultSlot "order" "Lost")]) ∧
          Arrives [shop] order [parcel] ⟨"Lost", .int 7⟩ start x.session := by
  intro start lost
  have distinct : ([shop, order, parcel].map Layer.id).Nodup := by decide
  have unlimited : Unlimited (lost.run start) := by
    have returned : (lost.run start).1 = .ok () := by rfl
    intro e
    rw [returned]
    exact ok_ne_abort _
  obtain ⟨starts, derivation, taken, -⟩ := fault_goes_to_innermost_taker Unit
    [shop, order, parcel] "Lost" (some (.literal (.int 7))) start distinct (by decide) rfl unlimited
  refine ⟨distinct, by decide, rfl, unlimited, starts, derivation, ?_⟩
  refine taken [shop] order [parcel] _ rfl rfl ?_
  simp only [List.forall_mem_singleton]
  rfl

end Orchestration
