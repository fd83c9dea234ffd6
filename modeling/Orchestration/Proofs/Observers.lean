import Orchestration.Proofs.Events
import Orchestration.Proofs.Retracing
import Orchestration.Trace.Log
import Orchestration.Trace.Profile

/-!
# What tracers make of a run

Every tracer follows the history of a run, the list of all its events, since it takes in the same
events one by one. So a run is the same for all tracers, and what a tracer has become at its end is
a matter of the events alone: how far a recording or a log gets in them, and what a profile counts.
-/

set_option autoImplicit false

namespace Orchestration

/-! ## Histories -/

abbrev History := List Event

instance : Tracer History := ⟨fun es e => es ++ [e]⟩

variable {τ τ' : Type} [Tracer τ] [Tracer τ']

theorem History.follows (t : τ) (clock : Nat → Duration) :
    (Guise.retracing (fun es : History => es.foldl Tracer.observe t) clock).Follows := by
  intro es e
  change (es ++ [e]).foldl Tracer.observe t = _
  rw [List.foldl_append]
  rfl

namespace Program

theorem run_retraced {f : τ → τ'} {clock : Nat → Duration}
    (follows : (Guise.retracing f clock).Follows) (p : Program)
    (untimed : p.limits.maxDuration = none) (host : Host) (t : τ) :
    p.run (host.timed clock) (f t) =
      ((p.run host t).1, (p.run host t).2.guised (.retracing f clock)) := by
  obtain ⟨starts, derivation⟩ := Engine.run_yields p.main (.start host (some p.limits) t)
  have same : p.main.run (.start (host.timed clock) (some p.limits) (f t)) = _ :=
    (derivation.retraced follows untimed).run_eq
  unfold run
  rw [same]
  rfl

def events (p : Program) (host : Host) : List Event :=
  (p.run host (Recording.empty none)).2.tracer.events

/-- The run with any tracer is the one that is recorded, with the tracer told of its events. -/
theorem run_eq_recorded (p : Program) (untimed : p.limits.maxDuration = none) (host : Host)
    (clock : Nat → Duration) (t : τ) :
    p.run (host.timed clock) t = ((p.run host (Recording.empty none)).1,
      (p.run host (Recording.empty none)).2.guised
        (.retracing (fun _ => (p.events host).foldl Tracer.observe t) clock)) := by
  have recorded : p.run host (Recording.empty none) = _ :=
    p.run_retraced (History.follows (Recording.empty none) host.clock) untimed host []
  have traced := p.run_retraced (History.follows t clock) untimed host []
  have told : p.events host = (p.run host ([] : History)).2.tracer := by
    unfold events
    rw [recorded]
    exact congrArg Recording.events (Recording.foldl_observe _ [])
  rw [told, recorded]
  exact traced

end Program

/-! ## Recordings -/

theorem Recording.foldl_limited {n : Nat} (es old : List Event) (room : old.length ≤ n) :
    es.foldl Tracer.observe (⟨some n, old⟩ : Recording) = ⟨some n, (old ++ es).take n⟩ := by
  induction es generalizing old with
  | nil => rw [List.foldl_nil, List.append_nil, List.take_of_length_le room]
  | cons e es ih =>
    rw [List.foldl_cons]
    by_cases full : n ≤ old.length
    · have ignored : Tracer.observe (⟨some n, old⟩ : Recording) e = ⟨some n, old⟩ :=
        if_pos (decide_eq_true full)
      rw [ignored, ih old room, List.take_append_of_le_length full,
        List.take_append_of_le_length full]
    · have kept : Tracer.observe (⟨some n, old⟩ : Recording) e = ⟨some n, old ++ [e]⟩ :=
        if_neg (by simpa [Recording.full] using full)
      have room' : (old ++ [e]).length ≤ n := by
        rw [List.length_append, List.length_singleton]
        omega
      rw [kept, ih (old ++ [e]) room', List.append_assoc]
      rfl

/-! ## Logs -/

namespace Log

def entry (e : Event) : String := describe e ++ "\n"

def entries (es : List Event) : String := String.join (es.map entry)

def closing (n : Nat) : String := s!"--- trace limit reached ({n} lines) ---\n"

theorem entries_cons (e : Event) (es : List Event) : entries (e :: es) = entry e ++ entries es :=
  String.join_cons

theorem foldl_unlimited (es : List Event) (lines : Nat) (text : String) :
    (es.foldl Tracer.observe (⟨none, lines, text⟩ : Log)).text = text ++ entries es := by
  induction es generalizing lines text with
  | nil => exact String.append_empty.symm
  | cons e es ih =>
    rw [List.foldl_cons, entries_cons, ← String.append_assoc]
    change (es.foldl Tracer.observe (⟨none, lines + 1, text ++ describe e ++ "\n"⟩ : Log)).text = _
    rw [ih, entry, ← String.append_assoc]

theorem foldl_reached (es : List Event) {l : Log} (reached : l.reached = true) :
    es.foldl Tracer.observe l = l := by
  induction es with
  | nil => rfl
  | cons e es ih =>
    have silent : Tracer.observe l e = l := if_pos reached
    rw [List.foldl_cons, silent, ih]

theorem observe_limited {n lines : Nat} (room : lines < n) (text : String) (e : Event) :
    Tracer.observe (⟨some n, lines, text⟩ : Log) e =
      ⟨some n, lines + 1, text ++ entry e ++ if n = lines + 1 then closing n else ""⟩ := by
  change write ⟨some n, lines, text⟩ e = _
  have unread : ¬ Log.reached ⟨some n, lines, text⟩ = true := by simpa [reached] using room
  have entered : text ++ describe e ++ "\n" = text ++ entry e := String.append_assoc
  unfold write
  rw [if_neg unread]
  dsimp only
  rw [entered]
  by_cases last : n = lines + 1
  · have last' : Log.reached ⟨some n, lines + 1, text ++ entry e⟩ = true :=
      decide_eq_true (Nat.le_of_eq last)
    rw [if_pos last, if_pos last', last]
    rfl
  · have further : ¬ Log.reached ⟨some n, lines + 1, text ++ entry e⟩ = true := by
      simp only [reached, decide_eq_true_eq]
      omega
    rw [if_neg last, if_neg further, String.append_empty]

theorem foldl_limited {n : Nat} (es : List Event) {lines : Nat} (room : lines < n)
    (text : String) : (es.foldl Tracer.observe (⟨some n, lines, text⟩ : Log)).text =
      text ++ entries (es.take (n - lines)) ++
        if n ≤ lines + es.length then closing n else "" := by
  induction es generalizing lines text with
  | nil =>
    rw [if_neg (by simpa using room), List.take_nil]
    simp [entries]
  | cons e es ih =>
    rw [List.foldl_cons, observe_limited room]
    by_cases last : n = lines + 1
    · subst last
      have reached (text : String) : Log.reached ⟨some (lines + 1), lines + 1, text⟩ = true :=
        decide_eq_true (Nat.le_refl _)
      rw [foldl_reached es (reached _), if_pos rfl, if_pos (by simp)]
      simp [entries]
    · have left : n - lines = n - (lines + 1) + 1 := by omega
      have same : lines + 1 + es.length = lines + (e :: es).length := by
        rw [List.length_cons]
        omega
      rw [ih (by omega), if_neg last, same, left, List.take_succ_cons, entries_cons]
      simp only [String.append_assoc, String.empty_append]

theorem text_limited (n : Nat) (es : List Event) :
    (es.foldl Tracer.observe (empty (some n))).text =
      entries (es.take n) ++ if 1 ≤ n ∧ n ≤ es.length then closing n else "" := by
  rcases Nat.eq_zero_or_pos n with rfl | pos
  · rw [foldl_reached es rfl]
    simp [empty, entries]
  · have within : 1 ≤ n ∧ n ≤ es.length ↔ n ≤ 0 + es.length := by omega
    simp only [empty, foldl_limited es pos, within, Nat.sub_zero, String.empty_append]

end Log

/-! ## Profiles -/

/-- The list has each kind among the events once, with the number of events of the kind. -/
structure Counts (counts : List (EventKind × Nat)) (es : List Event) : Prop where
  once : (counts.map Prod.fst).Nodup
  listed : ∀ k n, (k, n) ∈ counts ↔ n = es.countP (·.kind = k) ∧ 0 < n

/-- The depth is the largest at which the events open a scope, 0 if they open none. -/
structure Deepest (depth : Nat) (es : List Event) : Prop where
  least : ∀ scope d, .scopePush scope d ∈ es → d ≤ depth
  reached : (∃ scope, .scopePush scope depth ∈ es) ∨
    depth = 0 ∧ ∀ scope d, .scopePush scope d ∉ es

theorem Counts.lookup {counts : List (EventKind × Nat)} {es : List Event} (tells : Counts counts es)
    (k : EventKind) : (counts.lookup k).getD 0 = es.countP (·.kind = k) := by
  cases found : counts.lookup k with
  | none =>
    have missing := List.lookup_eq_none_iff.mp found
    rcases Nat.eq_zero_or_pos (es.countP (·.kind = k)) with zero | pos
    · exact zero.symm
    · simpa using missing _ ((tells.listed k _).mpr ⟨rfl, pos⟩)
  | some n =>
    obtain ⟨before, after, rfl, -⟩ := List.lookup_eq_some_iff.mp found
    exact ((tells.listed k n).mp (by simp)).1

theorem Counts.perm {counts counts' : List (EventKind × Nat)} {es : List Event}
    (tells : Counts counts es) (perm : counts'.Perm counts) : Counts counts' es where
  once := (perm.map Prod.fst).nodup_iff.mpr tells.once
  listed k n := perm.mem_iff.trans (tells.listed k n)

namespace Profile

theorem keys_bump (counts : List (EventKind × Nat)) (k : EventKind) :
    (bump counts k).map Prod.fst =
      if k ∈ counts.map Prod.fst then counts.map Prod.fst else counts.map Prod.fst ++ [k] := by
  induction counts with
  | nil => rfl
  | cons x rest ih =>
    obtain ⟨k', n⟩ := x
    by_cases here : k' = k
    · simp [bump, here]
    · have other : k ≠ k' := Ne.symm here
      simp only [bump, here, if_false, List.map_cons, ih, List.mem_cons, other, false_or]
      split <;> rfl

theorem mem_bump {counts : List (EventKind × Nat)} (once : (counts.map Prod.fst).Nodup)
    (k k' : EventKind) (n : Nat) : (k', n) ∈ bump counts k ↔
      if k' = k then n = (counts.lookup k).getD 0 + 1 else (k', n) ∈ counts := by
  induction counts with
  | nil =>
    by_cases same : k' = k <;> simp [bump, same]
  | cons x rest ih =>
    obtain ⟨j, m⟩ := x
    obtain ⟨new, once⟩ := List.nodup_cons.mp once
    have absent (n : Nat) : (j, n) ∉ rest := fun mem => new (List.mem_map.mpr ⟨_, mem, rfl⟩)
    by_cases here : j = k
    · subst here
      by_cases same : k' = j
      · subst same
        simp [bump, absent]
      · simp [bump, same]
    · have other : ¬ k = j := Ne.symm here
      have lookup : ((j, m) :: rest).lookup k = rest.lookup k := by
        rw [List.lookup_cons, beq_eq_false_iff_ne.mpr other]
      simp only [bump, here, if_false, List.mem_cons, ih once, lookup]
      by_cases same : k' = k
      · subst same
        simp [other]
      · simp [same]

theorem counts_observe {p : Profile} {es : List Event} (tells : Counts p.counts es) (e : Event) :
    Counts (Tracer.observe p e).counts (es ++ [e]) where
  once := by
    change ((bump p.counts e.kind).map Prod.fst).Nodup
    rw [keys_bump]
    split
    · exact tells.once
    · next new =>
      refine List.nodup_append.mpr ⟨tells.once, List.nodup_cons.mpr ⟨by simp, .nil⟩, ?_⟩
      rintro k mem _ last rfl
      exact new (List.mem_singleton.mp last ▸ mem)
  listed k n := by
    change (k, n) ∈ bump p.counts e.kind ↔ _
    rw [mem_bump tells.once, tells.lookup, tells.listed, List.countP_append]
    by_cases same : k = e.kind
    · subst same
      simp only [if_true, List.countP_singleton, decide_true]
      exact ⟨fun eq => ⟨eq, eq ▸ Nat.succ_pos _⟩, And.left⟩
    · have other : ¬ e.kind = k := Ne.symm same
      simp [same, other]

theorem deepest_observe {p : Profile} {es : List Event} (deep : Deepest p.maxDepth es) (e : Event) :
    Deepest (Tracer.observe p e).maxDepth (es ++ [e]) := by
  cases e with
  | scopePush scope d =>
    change Deepest (max p.maxDepth d) _
    constructor
    · intro scope' d' mem
      rcases List.mem_append.mp mem with before | last
      · exact Nat.le_trans (deep.least scope' d' before) (Nat.le_max_left ..)
      · cases List.mem_singleton.mp last
        exact Nat.le_max_right ..
    · rcases Nat.le_total d p.maxDepth with below | above
      · rw [Nat.max_eq_left below]
        rcases deep.reached with ⟨scope', mem⟩ | ⟨zero, -⟩
        · exact .inl ⟨scope', List.mem_append_left _ mem⟩
        · have same : d = p.maxDepth := by omega
          exact .inl ⟨scope, by simp [same]⟩
      · rw [Nat.max_eq_right above]
        exact .inl ⟨scope, by simp⟩
  | _ =>
    change Deepest p.maxDepth _
    constructor
    · simpa using deep.least
    · simpa using deep.reached

def Before (a b : EventKind × Nat) : Prop := b.2 < a.2 ∨ a.2 = b.2 ∧ a.1.name < b.1.name

theorem precedes_trans (a b c : EventKind × Nat) (first : precedes a b = true)
    (second : precedes b c = true) : precedes a c = true := by
  unfold precedes at *
  simp only [Bool.or_eq_true, Bool.and_eq_true, decide_eq_true_eq] at *
  rcases first with first | ⟨same, first⟩ <;> rcases second with second | ⟨same', second⟩
  · exact .inl (by omega)
  · exact .inl (by omega)
  · exact .inl (by omega)
  · exact .inr ⟨by omega, String.le_trans first second⟩

theorem precedes_total (a b : EventKind × Nat) : (precedes a b || precedes b a) = true := by
  unfold precedes
  simp only [Bool.or_eq_true, Bool.and_eq_true, decide_eq_true_eq]
  rcases Nat.lt_trichotomy a.2 b.2 with less | same | more
  · exact .inr (.inl less)
  · rcases String.le_total a.1.name b.1.name with before | behind
    · exact .inl (.inr ⟨same, before⟩)
    · exact .inr (.inr ⟨same.symm, behind⟩)
  · exact .inl (.inl more)

theorem name_injective {k k' : EventKind} (same : k.name = k'.name) : k = k' := by
  revert same
  cases k <;> cases k' <;> decide

theorem before_of_precedes {a b : EventKind × Nat} (precedes : precedes a b = true)
    (other : a.1 ≠ b.1) : Before a b := by
  unfold Profile.precedes at precedes
  simp only [Bool.or_eq_true, Bool.and_eq_true, decide_eq_true_eq] at precedes
  rcases precedes with more | ⟨same, before⟩
  · exact .inl more
  · refine .inr ⟨same, String.not_le.mp fun behind => other ?_⟩
    exact name_injective (String.le_antisymm before behind)

end Profile

structure Report.Tells (r : Report) (es : List Event) : Prop where
  counts : Counts r.counts es
  count : ∀ k, r.count k = es.countP (·.kind = k)
  sorted : r.counts.Pairwise Profile.Before
  deepest : Deepest r.maxDepth es

namespace Profile

theorem observes (es : List Event) :
    Counts (es.foldl Tracer.observe empty).counts es ∧
      Deepest (es.foldl Tracer.observe empty).maxDepth es := by
  suffices whole : ∀ (later before : List Event) (p : Profile), Counts p.counts before →
      Deepest p.maxDepth before →
      Counts (later.foldl Tracer.observe p).counts (before ++ later) ∧
        Deepest (later.foldl Tracer.observe p).maxDepth (before ++ later) by
    exact whole es [] empty ⟨.nil, by simp [empty]⟩ ⟨nofun, .inr ⟨rfl, nofun⟩⟩
  intro later
  induction later with
  | nil =>
    intro before p counts deep
    rw [List.append_nil]
    exact ⟨counts, deep⟩
  | cons e later ih =>
    intro before p counts deep
    rw [List.foldl_cons, List.append_cons]
    exact ih _ _ (counts_observe counts e) (deepest_observe deep e)

theorem report_tells (es : List Event) : (es.foldl Tracer.observe empty).report.Tells es := by
  obtain ⟨counts, deep⟩ := observes es
  generalize es.foldl Tracer.observe empty = p at counts deep
  have sorted : Counts p.report.counts es := counts.perm (List.mergeSort_perm ..)
  refine ⟨sorted, sorted.lookup, ?_, deep⟩
  have ordered : p.report.counts.Pairwise fun a b => precedes a b = true :=
    List.pairwise_mergeSort precedes_trans precedes_total p.counts
  have distinct := List.pairwise_map.mp sorted.once
  exact ordered.imp₂ (fun _ _ precedes other => before_of_precedes precedes other) distinct

end Profile

/-! ## All tracers together -/

/-- Where no limit bounds the time, a run comes to the same with every tracer, however long that
takes. A limited recording holds the first events of the unlimited one, a profile reports on all of
them, and a log has a line for each of the first ones and says where its limit has ended it. -/
theorem tracers_agree (p : Program) (untimed : p.limits.maxDuration = none) (host : Host) :
    (∀ {τ : Type} [Tracer τ] (t : τ) (clock : Nat → Duration),
      let recorded := p.run host (Recording.empty none)
      let traced := p.run (host.timed clock) t
      traced.1 = recorded.1 ∧ traced.2.output = recorded.2.output ∧
        traced.2.calls = recorded.2.calls ∧ traced.2.env = recorded.2.env) ∧
    ∀ clock : Nat → Duration,
      let es := p.events host
      (∀ n, (p.run (host.timed clock) (Recording.empty (some n))).2.tracer.events = es.take n) ∧
      (p.run (host.timed clock) Profile.empty).2.tracer.report.Tells es ∧
      (∀ n, (p.run (host.timed clock) (Log.empty (some n))).2.tracer.text =
        Log.entries (es.take n) ++ if 1 ≤ n ∧ n ≤ es.length then Log.closing n else "") ∧
      (p.run (host.timed clock) (Log.empty none)).2.tracer.text = Log.entries es := by
  constructor
  · intro τ _ t clock recorded traced
    have same : traced = _ := p.run_eq_recorded untimed host clock t
    rw [same]
    exact ⟨rfl, rfl, rfl, rfl⟩
  · intro clock es
    have told {τ : Type} [Tracer τ] (t : τ) :
        (p.run (host.timed clock) t).2.tracer = es.foldl Tracer.observe t := by
      rw [p.run_eq_recorded untimed host clock t]
      rfl
    refine ⟨fun n => ?_, ?_, fun n => ?_, ?_⟩
    · rw [told, Recording.empty, Recording.foldl_limited es [] (Nat.zero_le n)]
      rfl
    · rw [told]
      exact Profile.report_tells es
    · rw [told, Log.text_limited]
    · rw [told, Log.empty, Log.foldl_unlimited, String.empty_append]

def delivery : Program where
  main := .scope "order" (.sequence [
    .install [(.this, .print [.literal (.str "refund")]), (.fault "Lost", .kill "Stop" none)],
    .scope "parcel" (.throw "Lost" none) true]) true
  limits := .none

theorem delivery_is_traced_alike :
    let clock := Host.steadyClock 7 250
    let run := fun {τ : Type} [Tracer τ] (t : τ) => delivery.run (Host.standard.timed clock) t
    let es := delivery.events .standard
    delivery.limits.maxDuration = none ∧ es.length = 10 ∧
      (run ()).1 = .ok (.terminated ⟨"Stop", .void⟩) ∧
      (run (Log.empty (some 2))).2.output =
        (delivery.run .standard (Recording.empty none)).2.output ∧
      (run (Recording.empty (some 3))).2.tracer.events = es.take 3 ∧
      (run Profile.empty).2.tracer.report.Tells es ∧
      (run (Log.empty (some 2))).2.tracer.text =
        Log.entries [.scopePush "order" 1, .scopePush "parcel" 2] ++ Log.closing 2 := by
  intro clock run es
  have untimed : delivery.limits.maxDuration = none := rfl
  obtain ⟨agree, traced⟩ := tracers_agree delivery untimed .standard
  obtain ⟨recorded, profiled, logged, -⟩ := traced clock
  exact ⟨untimed, rfl, (agree () clock).1, (agree (Log.empty (some 2)) clock).2.1, recorded 3,
    profiled, logged 2⟩

end Orchestration
