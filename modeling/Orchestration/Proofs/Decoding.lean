import Orchestration.Description.Read
import Orchestration.Proofs.Contents
import Orchestration.Proofs.PathText

/-!
# What descriptions decode to

What a decoder decodes is known from what its parts decode: the fields of a record
fill it in any order, a case has the content of its name. So every path of a program
that a description gives is a valid one, for a path is decoded from its text and
from nothing else.
-/

set_option autoImplicit false

namespace Orchestration

namespace Json

variable {α β σ : Type}

def Decodes (P : α → Prop) (d : Decoder α) : Prop := ∀ room j a, d room j = .ok a → P a

namespace Decodes

variable {P : α → Prop} {Q : β → Prop} {d : Decoder α}

theorem any (d : Decoder α) : Decodes (fun _ => True) d := fun _ _ _ _ => trivial

theorem fail : Decodes P Decoder.fail := nofun

theorem andThen {f : α → Except DecodeError β} (decoded : Decodes P d)
    (each : ∀ a, P a → ∀ b, f a = .ok b → Q b) : Decodes Q (d.andThen f) := by
  intro room j b done
  obtain ⟨a, read, rest⟩ := ok_of_bind done
  exact each a (decoded room j a read) b rest

theorem map {f : α → β} (decoded : Decodes P d) (each : ∀ a, P a → Q (f a)) :
    Decodes Q (d.andThen fun a => .ok (f a)) := by
  refine decoded.andThen fun a holds b done => ?_
  cases done
  exact each a holds

theorem nullable (decoded : Decodes P d) :
    Decodes (fun o => ∀ a ∈ o, P a) (Decoder.nullable d) := by
  intro room j o done
  unfold Decoder.nullable at done
  split at done
  · cases done
    nofun
  · cases read : d room j with
    | error e => rw [read] at done; cases done
    | ok a =>
      rw [read] at done
      cases done
      exact fun b eq => Option.some.inj eq ▸ decoded room j a read

theorem readAll {room : Nat} (decoded : Decodes P d) :
    ∀ (js : List Json) (as : List α), Decoder.readAll (d room) js = .ok as → ∀ a ∈ as, P a := by
  intro js
  induction js with
  | nil =>
    intro as done
    cases done
    nofun
  | cons j js ih =>
    intro as done
    obtain ⟨a, head, done⟩ := ok_of_bind done
    obtain ⟨rest, tail, done⟩ := ok_of_bind done
    cases done
    exact List.forall_mem_cons.mpr ⟨decoded room j a head, ih rest tail⟩

theorem array (decoded : Decodes P d) : Decodes (fun as => ∀ a ∈ as, P a) (Decoder.array d) := by
  intro room j as done
  unfold Decoder.array at done
  split at done
  · next room items => exact readAll decoded items as done
  · cases done

theorem case {units : String → Option α} {contents : String → Option (Decoder α)}
    (unit : ∀ name a, units name = some a → P a)
    (content : ∀ name d, contents name = some d → Decodes P d) :
    Decodes P (Decoder.case units contents) := by
  have required : ∀ name a, Decoder.require (units name) = .ok a → P a := by
    intro name a done
    cases named : units name with
    | none => rw [named] at done; cases done
    | some b =>
      rw [named] at done
      cases done
      exact unit name _ named
  intro room j a done
  unfold Decoder.case at done
  split at done
  · next name => exact required name a done
  · next room name inner rest =>
    have alone : ∀ b, (if rest.isEmpty then pure b else .error DecodeError.malformed) = Except.ok a →
        b = a := by
      intro b last
      split at last
      · cases last; rfl
      · cases last
    dsimp only at done
    split at done
    · next _ _ c named => cases alone c done; exact unit name _ named
    · cases done
    · split at done
      · next d named =>
        obtain ⟨b, read, done⟩ := ok_of_bind done
        cases alone b done
        exact content name d named _ _ _ read
      · cases done
  · cases done

theorem nested {body : Decoder α → Decoder α} (step : ∀ self, Decodes P self → Decodes P (body self))
    (levels : Nat) : Decodes P (Decoder.nested body levels) := by
  induction levels with
  | zero => exact fail
  | succ levels ih => exact step _ ih

theorem recursive {body : Decoder α → Decoder α}
    (step : ∀ self, Decodes P self → Decodes P (body self)) : Decodes P (Decoder.recursive body) :=
  fun room j => nested step (room + 1) room j

end Decodes

/-! ## Records -/

def Decoder.Field.Keeps (P : σ → Prop) (f : Decoder.Field σ) : Prop :=
  Decodes (fun fill => ∀ s, P s → P (fill s)) f.read

theorem keeps_field {P : σ → Prop} {Q : α → Prop} {name : String} {d : Decoder α}
    {slot : σ → Option α} {fill : σ → α → σ} (decoded : Decodes Q d)
    (each : ∀ s a, P s → Q a → P (fill s a)) : (Decoder.field name d slot fill).Keeps P :=
  decoded.map fun a holds s kept => each s a kept holds

theorem readItems_keeps {P : σ → Prop} {room : Nat} {fields : List (Decoder.Field σ)}
    (each : ∀ f ∈ fields, f.Keeps P) {js : List Json} {s s' : σ} (start : P s)
    (done : Decoder.readItems room fields js s = .ok s') : P s' := by
  induction fields generalizing js s with
  | nil =>
    cases js with
    | nil => cases done; exact start
    | cons j js => cases done
  | cons f fields ih =>
    cases js with
    | nil => cases done; exact start
    | cons j js =>
      obtain ⟨fill, read, done⟩ := ok_of_bind done
      have next : P (fill s) := each f (by simp) room j fill read s start
      exact ih (fun g mem => each g (by simp [mem])) next done

theorem member_keeps {P : σ → Prop} {fields : List (Decoder.Field σ)} {closed : Bool}
    (each : ∀ f ∈ fields, f.Keeps P) {name : String} {s : σ} (start : P s) :
    Decodes P (Decoder.member fields closed s name) := by
  intro room j s' done
  unfold Decoder.member at done
  split at done
  · next f found =>
    split at done
    · cases done
    · cases read : f.read room j with
      | error e => rw [read] at done; cases done
      | ok fill =>
        rw [read] at done
        cases done
        exact each f (List.mem_of_find?_eq_some found) room j fill read s start
  · split at done
    · cases done; exact start
    · cases done

theorem readMembers_keeps {P : σ → Prop} {step : σ → String → Json → Except DecodeError σ}
    (each : ∀ s name j s', P s → step s name j = .ok s' → P s')
    {ms : List (Option String × Json)} {s s' : σ} (start : P s)
    (done : Decoder.readMembers step ms s = .ok s') : P s' := by
  induction ms generalizing s with
  | nil => cases done; exact start
  | cons m ms ih =>
    obtain ⟨named, j⟩ := m
    cases named with
    | none => cases done
    | some name =>
      obtain ⟨next, read, done⟩ := ok_of_bind done
      exact ih (each s name j next start read) done

theorem decodes_record {P : σ → Prop} {fields : List (Decoder.Field σ)} {closed : Bool} {start : σ}
    (each : ∀ f ∈ fields, f.Keeps P) (empty : P start) :
    Decodes P (Decoder.record fields closed start) := by
  intro room j s done
  unfold Decoder.record at done
  split at done
  · exact readItems_keeps each empty done
  · unfold Decoder.members at done
    split at done
    · exact readMembers_keeps (fun s name j s' kept read => member_keeps each kept _ _ _ read)
        empty done
    · cases done

theorem of_require {o : Option α} {a : α} (done : Decoder.require o = .ok a) : o = some a := by
  cases o with
  | none => cases done
  | some b => cases done; rfl

theorem decodes_path : Decodes Path.Valid Decoder.path := by
  refine (Decodes.any Decoder.string).andThen fun text _ p done => ?_
  split at done
  · next q read => cases done; exact Path.valid_of_ofText read
  · cases done

end Json

open Json Json.Decoder

/-! ## Programs -/

theorem Value.meets_any (v : Value) : v.Meets fun _ => True := by cases v <;> trivial

theorem Target.meets_any (t : Target) : t.Meets fun _ => True := by cases t <;> trivial

def Expr.PathsValid (e : Expr) : Prop := e.Meets Path.Valid fun _ => True

def Activity.PathsValid (p : Activity) : Prop := p.Meets Path.Valid fun _ => True

theorem Expr.decodes : Decodes Expr.PathsValid Expr.ofJson := by
  refine .recursive fun self parts => .case nofun fun name d named => ?_
  unfold Expr.contents at named
  split at named
  · cases named
    exact (Decodes.any _).map fun v _ => v.meets_any
  · cases named
    exact decodes_path.map fun p valid => valid
  · cases named
    exact parts.array.map fun es each => ⟨trivial, (Expr.meetAll_iff _ _ es).mpr each⟩
  · cases named

namespace Activity

theorem assign_decodes : Decodes Activity.PathsValid assignOfJson := by
  have fields : Decodes (fun s : AssignFields =>
      (∀ p ∈ s.path, p.Valid) ∧ ∀ e ∈ s.value, e.PathsValid) assignFields := by
    refine decodes_record ?_ ⟨nofun, nofun⟩
    simp only [List.forall_mem_cons]
    refine ⟨keeps_field decodes_path ?_, keeps_field Expr.decodes ?_, nofun⟩
    · exact fun s p kept valid => ⟨fun q eq => Option.some.inj eq ▸ valid, kept.2⟩
    · exact fun s e kept valid => ⟨kept.1, fun f eq => Option.some.inj eq ▸ valid⟩
  refine fields.andThen fun s kept p done => ?_
  obtain ⟨path, first, done⟩ := ok_of_bind done
  obtain ⟨value, second, done⟩ := ok_of_bind done
  cases done
  exact ⟨kept.1 path (of_require first), kept.2 value (of_require second)⟩

theorem fault_decodes {make : String → Option Expr → Activity}
    (made : ∀ name payload, (∀ e ∈ payload, Expr.PathsValid e) → (make name payload).PathsValid) :
    Decodes Activity.PathsValid (faultOfJson make) := by
  have fields : Decodes (fun s : FaultFields =>
      ∀ o ∈ s.payload, ∀ e ∈ o, Expr.PathsValid e) faultFields := by
    refine decodes_record ?_ nofun
    simp only [List.forall_mem_cons]
    refine ⟨keeps_field (Decodes.any _) ?_, keeps_field Expr.decodes.nullable ?_, nofun⟩
    · exact fun s name kept _ => kept
    · exact fun s o kept valid p eq => Option.some.inj eq ▸ valid
  refine fields.andThen fun s kept p done => ?_
  obtain ⟨name, first, done⟩ := ok_of_bind done
  cases done
  apply made
  cases given : s.payload with
  | none => nofun
  | some payload => exact kept payload given

theorem handler_decodes {self : Decoder Activity} (parts : Decodes Activity.PathsValid self) :
    Decodes (fun h => h.2.PathsValid) (handlerOfJson self) := by
  have fields : Decodes (fun s : HandlerFields => ∀ p ∈ s.handler, p.PathsValid)
      (handlerFields self) := by
    refine decodes_record ?_ nofun
    simp only [List.forall_mem_cons]
    refine ⟨keeps_field (Decodes.any _) ?_, keeps_field parts ?_, nofun⟩
    · exact fun s t kept _ => kept
    · exact fun s p kept valid q eq => Option.some.inj eq ▸ valid
  refine fields.andThen fun s kept h done => ?_
  obtain ⟨target, first, done⟩ := ok_of_bind done
  obtain ⟨handler, second, done⟩ := ok_of_bind done
  cases done
  exact kept handler (of_require second)

theorem scope_decodes {self : Decoder Activity} (parts : Decodes Activity.PathsValid self) :
    Decodes (fun d => d.body.PathsValid) (scopeOfJson self) := by
  have fields : Decodes (fun s : ScopeFields => ∀ p ∈ s.body, p.PathsValid)
      (scopeFields self) := by
    refine decodes_record ?_ nofun
    simp only [List.forall_mem_cons]
    refine ⟨keeps_field (Decodes.any _) ?_, keeps_field parts ?_, keeps_field (Decodes.any _) ?_,
      nofun⟩
    · exact fun s id kept _ => kept
    · exact fun s p kept valid q eq => Option.some.inj eq ▸ valid
    · exact fun s b kept _ => kept
  refine fields.andThen fun s kept d done => ?_
  obtain ⟨id, first, done⟩ := ok_of_bind done
  obtain ⟨body, second, done⟩ := ok_of_bind done
  cases done
  exact kept body (of_require second)

theorem contents_decodes {self : Decoder Activity} (parts : Decodes Activity.PathsValid self)
    {name : String} {d : Decoder Activity} (named : contents self name = some d) :
    Decodes Activity.PathsValid d := by
  unfold contents at named
  split at named <;> cases named
  · exact parts.array.map fun ps each => ⟨trivial, (meetAll_iff _ _ ps).mpr each⟩
  · exact parts.array.map fun ps each => ⟨trivial, (meetAll_iff _ _ ps).mpr each⟩
  · exact assign_decodes
  · exact Expr.decodes.array.map fun es each => ⟨trivial, (Expr.meetAll_iff _ _ es).mpr each⟩
  · exact fault_decodes fun name payload valid => ⟨trivial, valid⟩
  · exact fault_decodes fun name payload valid => ⟨trivial, valid⟩
  · exact (handler_decodes parts).array.map fun hs each =>
      ⟨trivial, (meetHandlers_iff _ _ hs).mpr fun h mem => ⟨h.1.meets_any, each h mem⟩⟩
  · exact (Decodes.any _).map fun id _ => trivial
  · exact (scope_decodes parts).map fun d valid => ⟨trivial, valid⟩

theorem decodes : Decodes Activity.PathsValid Activity.ofJson := by
  refine .recursive fun self parts => .case ?_ fun name d => contents_decodes parts
  intro name p named
  unfold units at named
  split at named <;> cases named <;> trivial

end Activity

namespace Program

theorem decodes : Decodes PathsValid ofJson := by
  have fields : Decodes (fun s : ProgramFields => ∀ p ∈ s.main, p.PathsValid)
      (Decoder.record [
        field "main" Activity.ofJson (·.main) fun s p => { s with main := some p },
        field "limits" Limits.ofJson (·.limits) fun s l => { s with limits := some l }]
        false (⟨none, none⟩ : ProgramFields)) := by
    refine decodes_record ?_ nofun
    simp only [List.forall_mem_cons]
    refine ⟨keeps_field Activity.decodes ?_, keeps_field (Decodes.any _) ?_, nofun⟩
    · exact fun s p kept valid q eq => Option.some.inj eq ▸ valid
    · exact fun s l kept _ => kept
  refine fields.andThen fun s kept p done => ?_
  obtain ⟨main, first, done⟩ := ok_of_bind done
  cases done
  exact kept main (of_require first)

theorem valid_of_ofDescription {text : String} {p : Program} (done : ofDescription text = .ok p) :
    p.PathsValid := by
  obtain ⟨q, decoded, done⟩ := ok_of_bind done
  split at done
  · cases done
    exact decodes _ _ _ decoded
  · cases done

end Program

end Orchestration
