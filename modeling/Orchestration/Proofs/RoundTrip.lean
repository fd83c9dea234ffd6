import Orchestration.Binary.Program
import Orchestration.Proofs.Decoding
import Orchestration.Proofs.Encoding

/-!
# Loading what has been dumped

A program is loaded back from its dump, whatever follows it, and no strict part from
the front of a dump can be loaded: the loaders of the parts read exactly what the
parts are dumped as, level by level of the tree. What is loaded from any bytes at all
is a program that its own dump gives back.
-/

set_option autoImplicit false

namespace Orchestration

open Binary

variable {levels : Nat}

/-- A path that is read back from its text, which is not too long for a dump. -/
abbrev Path.Dumpable (p : Path) : Prop := p.Valid ∧ p.text.utf8ByteSize < UInt64.size

/-! ## Values, paths and targets -/

namespace Value

theorem reads {v : Value} (meets : v.Meets (· < UInt64.size)) :
    Reads levels loader v.dump v := by
  cases v with
  | void => exact (reads_nat32 (by decide)).finish rfl
  | bool b => exact (reads_nat32 (by decide)).andThen ((reads_flag _ b).map rfl)
  | int n => exact (reads_nat32 (by decide)).andThen ((reads_int64 n).map rfl)
  | double x => exact (reads_nat32 (by decide)).andThen ((reads_double x).map rfl)
  | str s => exact (reads_nat32 (by decide)).andThen ((reads_string meets).map rfl)

theorem gives : Gives (Meets (· < UInt64.size)) loader := by
  refine (Gives.any _).andThen fun n _ => ?_
  split
  · exact .pure trivial
  · exact (Gives.any _).map fun b _ => trivial
  · exact (Gives.any _).map fun n _ => trivial
  · exact (Gives.any _).map fun x _ => trivial
  · exact gives_string.map fun s small => small
  · exact .fail _

end Value

namespace Path

theorem reads {p : Path} (dumpable : p.Dumpable) : Reads levels loader p.dump p := by
  refine (reads_string dumpable.2).finish ?_
  simp only [ofText_text dumpable.1]

theorem gives : Gives Dumpable loader := by
  refine gives_string.andThen fun text small => ?_
  split
  · next p done => exact .pure ⟨valid_of_ofText done, (size_text_le done).trans_lt small⟩
  · exact .fail _

end Path

namespace Target

theorem reads {t : Target} (meets : t.Meets (· < UInt64.size)) :
    Reads levels loader t.dump t := by
  cases t with
  | fault name => exact (reads_nat32 (by decide)).andThen ((reads_string meets).map rfl)
  | default => exact (reads_nat32 (by decide)).finish rfl
  | this => exact (reads_nat32 (by decide)).finish rfl

theorem gives : Gives (Meets (· < UInt64.size)) loader := by
  refine (Gives.any _).andThen fun n _ => ?_
  split
  · exact gives_string.map fun s small => small
  · exact .pure trivial
  · exact .pure trivial
  · exact .fail _

end Target

/-! ## Expressions -/

namespace Expr

abbrev Dumpable (e : Expr) : Prop := e.Meets Path.Dumpable (· < UInt64.size)

abbrev loaderWithin (levels : Nat) : Reader Expr :=
  Read.nested (fun self => Read.andThen Read.nat32 (caseLoader self)) levels

theorem dumpAll_eq (es : List Expr) : dumpAll es = es.flatMap dump := by
  induction es with
  | nil => rfl
  | cons e es ih => rw [dumpAll, ih, List.flatMap_cons]

mutual

theorem reads_within : ∀ (e : Expr), e.Dumpable → ∀ levels, Reads levels (loaderWithin levels) e.dump e
  | e, _, 0 => .zero _ _ e
  | .literal v, meets, levels + 1 => .case 0 (by decide) ((Value.reads meets).map rfl)
  | .path p, meets, levels + 1 => .case 1 (by decide) ((Path.reads meets).map rfl)
  | .concat parts, ⟨small, each⟩, levels + 1 => by
    rw [dump, List.append_assoc, dumpAll_eq]
    exact .case 2 (by decide) ((reads_list small (all_read_within parts each levels)).map rfl)

theorem all_read_within : ∀ (es : List Expr), MeetAll Path.Dumpable (· < UInt64.size) es →
    ∀ levels, ∀ e ∈ es, Reads levels (loaderWithin levels) e.dump e
  | [], _, _ => nofun
  | e :: rest, ⟨first, others⟩, levels => List.forall_mem_cons.mpr
    ⟨reads_within e first levels, all_read_within rest others levels⟩

end

theorem reads {e : Expr} (dumpable : e.Dumpable) : Reads levels loader e.dump e :=
  .recursive (reads_within e dumpable)

theorem reads_all {es : List Expr} (small : es.length < UInt64.size)
    (each : MeetAll Path.Dumpable (· < UInt64.size) es) :
    Reads levels (Read.list loader) (nat64 es.length ++ dumpAll es) es := by
  rw [dumpAll_eq]
  exact reads_list small fun e mem => reads ((meetAll_iff _ _ es).mp each e mem)

theorem gives : Gives Dumpable loader := by
  refine .recursive fun self parts => (Gives.any _).andThen fun n _ => ?_
  unfold caseLoader
  split
  · exact Value.gives.map fun v holds => holds
  · exact Path.gives.map fun p holds => holds
  · exact (gives_list parts).map fun es holds => ⟨holds.1, (meetAll_iff _ _ es).mpr holds.2⟩
  · exact .fail _

end Expr

/-! ## Activities -/

namespace Activity

abbrev Dumpable (p : Activity) : Prop := p.Meets Path.Dumpable (· < UInt64.size)

abbrev loaderWithin (levels : Nat) : Reader Activity :=
  Read.nested (fun self => Read.andThen Read.nat32 (caseLoader self)) levels

theorem dumpAll_eq (ps : List Activity) : dumpAll ps = ps.flatMap dump := by
  induction ps with
  | nil => rfl
  | cons p ps ih => rw [dumpAll, ih, List.flatMap_cons]

theorem dumpHandlers_eq (hs : List (Target × Activity)) :
    dumpHandlers hs = hs.flatMap fun h => h.1.dump ++ h.2.dump := by
  induction hs with
  | nil => rfl
  | cons h hs ih => rw [dumpHandlers, ih, List.flatMap_cons]

theorem reads_fault {make : String → Option Expr → Activity} {name : String}
    {payload : Option Expr} (small : name.utf8ByteSize < UInt64.size)
    (dumpable : ∀ e ∈ payload, Expr.Dumpable e) :
    Reads levels (faultLoader make) (string name ++ option Expr.dump payload)
      (make name payload) :=
  (reads_string small).andThen ((reads_option fun e mem => Expr.reads (dumpable e mem)).map rfl)

mutual

theorem reads_within : ∀ (p : Activity), p.Dumpable →
    ∀ levels, Reads levels (loaderWithin levels) p.dump p
  | p, _, 0 => .zero _ _ p
  | .nil, _, levels + 1 => (reads_nat32 (by decide)).finish rfl
  | .sequence ps, ⟨small, each⟩, levels + 1 => by
    rw [dump, List.append_assoc, dumpAll_eq]
    exact .case 1 (by decide) ((reads_list small (all_read_within ps each levels)).map rfl)
  | .parallel ps, ⟨small, each⟩, levels + 1 => by
    rw [dump, List.append_assoc, dumpAll_eq]
    exact .case 2 (by decide) ((reads_list small (all_read_within ps each levels)).map rfl)
  | .assign path value, ⟨target, source⟩, levels + 1 => by
    rw [dump, List.append_assoc]
    exact .case 3 (by decide) ((Path.reads target).andThen ((Expr.reads source).map rfl))
  | .print parts, ⟨small, each⟩, levels + 1 => by
    rw [dump, List.append_assoc]
    exact .case 4 (by decide) ((Expr.reads_all small each).map rfl)
  | .throw fault payload, ⟨small, each⟩, levels + 1 => by
    rw [dump, List.append_assoc]
    exact .case 5 (by decide) (reads_fault small each)
  | .kill fault payload, ⟨small, each⟩, levels + 1 => by
    rw [dump, List.append_assoc]
    exact .case 6 (by decide) (reads_fault small each)
  | .install handlers, ⟨small, each⟩, levels + 1 => by
    rw [dump, List.append_assoc, dumpHandlers_eq]
    exact .case 7 (by decide)
      ((reads_list small (handlers_read_within handlers each levels)).map rfl)
  | .compensate id, small, levels + 1 => .case 8 (by decide) ((reads_string small).map rfl)
  | .scope id body autoPop, ⟨small, inner⟩, levels + 1 => by
    rw [dump, List.append_assoc, List.append_assoc]
    exact .case 9 (by decide) ((reads_string small).andThen
      ((reads_within body inner levels).andThen ((reads_flag _ autoPop).map rfl)))
  | .exit, _, levels + 1 => (reads_nat32 (by decide)).finish rfl

theorem all_read_within : ∀ (ps : List Activity), MeetAll Path.Dumpable (· < UInt64.size) ps →
    ∀ levels, ∀ p ∈ ps, Reads levels (loaderWithin levels) p.dump p
  | [], _, _ => nofun
  | p :: rest, ⟨first, others⟩, levels => List.forall_mem_cons.mpr
    ⟨reads_within p first levels, all_read_within rest others levels⟩

theorem handlers_read_within : ∀ (hs : List (Target × Activity)),
    MeetHandlers Path.Dumpable (· < UInt64.size) hs → ∀ levels, ∀ h ∈ hs,
      Reads levels (handlerLoader (loaderWithin levels)) (h.1.dump ++ h.2.dump) h
  | [], _, _ => nofun
  | (_, p) :: rest, ⟨target, handler, others⟩, levels => List.forall_mem_cons.mpr
    ⟨(Target.reads target).andThen ((reads_within p handler levels).map rfl),
      handlers_read_within rest others levels⟩

end

theorem reads {p : Activity} (dumpable : p.Dumpable) : Reads levels loader p.dump p :=
  .recursive (reads_within p dumpable)

theorem gives_fault {make : String → Option Expr → Activity}
    (made : ∀ name payload, name.utf8ByteSize < UInt64.size → (∀ e ∈ payload, Expr.Dumpable e) →
      (make name payload).Dumpable) : Gives Dumpable (faultLoader make) :=
  gives_string.andThen fun name small => Expr.gives.option.map fun payload => made name payload small

theorem gives_handler {self : Reader Activity} (parts : Gives Dumpable self) :
    Gives (fun h => h.1.Meets (· < UInt64.size) ∧ h.2.Dumpable) (handlerLoader self) :=
  Target.gives.andThen fun _ target => parts.map fun _ handler => ⟨target, handler⟩

theorem gives_scope {self : Reader Activity} (parts : Gives Dumpable self) :
    Gives Dumpable (scopeLoader self) :=
  gives_string.andThen fun _ small => parts.andThen fun _ inner =>
    (Gives.any Read.bool).map fun _ _ => ⟨small, inner⟩

theorem gives : Gives Dumpable loader := by
  refine .recursive fun self parts => (Gives.any _).andThen fun n _ => ?_
  unfold caseLoader
  split
  · exact .pure trivial
  · exact (gives_list parts).map fun ps holds => ⟨holds.1, (meetAll_iff _ _ ps).mpr holds.2⟩
  · exact (gives_list parts).map fun ps holds => ⟨holds.1, (meetAll_iff _ _ ps).mpr holds.2⟩
  · exact Path.gives.andThen fun p target => Expr.gives.map fun e source => ⟨target, source⟩
  · exact (gives_list Expr.gives).map fun es holds =>
      ⟨holds.1, (Expr.meetAll_iff _ _ es).mpr holds.2⟩
  · exact gives_fault fun name payload small each => ⟨small, each⟩
  · exact gives_fault fun name payload small each => ⟨small, each⟩
  · exact (gives_list (gives_handler parts)).map fun hs holds =>
      ⟨holds.1, (meetHandlers_iff _ _ hs).mpr holds.2⟩
  · exact gives_string.map fun id small => small
  · exact gives_scope parts
  · exact .pure trivial
  · exact .fail _

end Activity

/-! ## Limits -/

theorem Duration.reads (d : Duration) : Reads levels loader d.dump d := by
  have small : d.nanos < UInt32.size := d.nanos_lt.trans (by decide)
  refine (reads_nat64 d.secs.toNat_lt).andThen ((reads_nat32 small).finish ?_)
  simp only [ofParts?_self]

namespace Limits

theorem reads_word (o : Option UInt64) : Reads levels wordLoader (dumpWord o) o :=
  reads_option fun n _ => (reads_nat64 n.toNat_lt).map UInt64.ofNat_toNat

theorem reads (l : Limits) : Reads levels loader l.dump l := by
  rw [dump, List.append_assoc]
  exact (reads_word _).andThen ((reads_word _).andThen
    ((reads_option fun d _ => Duration.reads d).map rfl))

end Limits

/-! ## Programs -/

namespace Program

theorem reads {p : Program} (dumpable : p.main.Dumpable) : Reads levels loader p.dump p :=
  (Activity.reads dumpable).andThen ((Limits.reads p.limits).map rfl)

theorem gives : Gives (fun p => p.main.Dumpable) loader :=
  Activity.gives.andThen fun _ dumpable => (Gives.any _).map fun _ _ => dumpable

theorem load_dump_append {p : Program} (dumpable : p.main.Dumpable) (t : Bytes) :
    load (p.dump ++ t) = .ok p := by
  rw [load, (reads dumpable).whole (Nat.lt_succ_self _) t]

theorem load_cut {p : Program} (dumpable : p.main.Dumpable) {b : Bytes} (within : b <+: p.dump)
    (short : b ≠ p.dump) : load b = .error .unexpectedEnd := by
  rw [load, (reads dumpable).cut b within short (Nat.lt_succ_self _)]

theorem dumpable_of_load {b : Bytes} {p : Program} (loaded : load b = .ok p) :
    p.main.Dumpable := by
  unfold load at loaded
  split at loaded
  · next q rest read => cases loaded; exact gives b _ rest read
  · cases loaded

end Program

/-- A program is loaded back from its dump and whatever follows it, if its paths are well formed;
and they are so in every program that is loaded, from whatever bytes, or described. -/
theorem dump_is_loaded_back :
    (∀ p : Program, p.PathsValid → p.Countable →
      ∀ t, Program.load (p.dump ++ t) = .ok p) ∧
    (∀ b p, Program.load b = .ok p →
      p.PathsValid ∧ p.Countable ∧ ∀ t, Program.load (p.dump ++ t) = .ok p) ∧
    (∀ text p, Program.ofDescription text = .ok p → p.PathsValid) := by
  refine ⟨fun p valid countable => ?_, fun b p loaded => ?_, fun text p described => ?_⟩
  · exact Program.load_dump_append (p.valid_and_countable.mp ⟨valid, countable⟩)
  · have dumpable := Program.dumpable_of_load loaded
    obtain ⟨valid, countable⟩ := p.valid_and_countable.mpr dumpable
    exact ⟨valid, countable, Program.load_dump_append dumpable⟩
  · exact Program.valid_of_ofDescription described

def voucher : Program :=
  ⟨.scope "order" (.sequence [
      .install [
        (.fault "Refused",
          .assign ⟨⟨"order", 0⟩, [⟨"items", 2⟩]⟩ (.concat [.literal (.int (-1))])),
        (.this, .print [.literal (.double ⟨0x7ff8000000000001⟩)])],
      .throw "Refused" (some (.literal (.str "€")))]) true,
    ⟨some 8, none, some ⟨1, 500, by decide⟩⟩⟩

theorem voucher_valid : voucher.PathsValid := by
  simp only [voucher, Program.PathsValid, Activity.Meets, Activity.MeetAll, Activity.MeetHandlers,
    Target.Meets, Expr.Meets, Expr.MeetAll, Value.Meets]
  simp [Expr.Meets, Value.Meets]
  decide

theorem voucher_countable : voucher.Countable := by
  simp only [voucher, Program.Countable, Activity.Meets, Activity.MeetAll, Activity.MeetHandlers,
    Target.Meets, Expr.Meets, Expr.MeetAll, Value.Meets]
  simp [Expr.Meets, Value.Meets]
  decide

def memo : String := "[\x7b\"assign\":[\"a[0]\",\x7b\"literal\":\"void\"\x7d]\x7d]"

/-- The voucher, a program loaded from padded numbers with one byte more at the end, and the memo. -/
theorem voucher_is_loaded_back :
    (voucher.PathsValid ∧ voucher.Countable ∧
      Program.load (voucher.dump ++ [1, 2, 3]) = .ok voucher) ∧
    (Program.load [0x81, 0, 0x82, 0x80, 0, 0x8a, 0, 0, 0, 0, 0, 99] =
        .ok ⟨.sequence [.exit, .nil], .none⟩ ∧
      Program.load (Program.dump ⟨.sequence [.exit, .nil], .none⟩ ++ []) =
        .ok ⟨.sequence [.exit, .nil], .none⟩) ∧
    ∃ p, Program.ofDescription memo = .ok p ∧
      p.agrees ⟨.assign (.root "a") (.literal .void), .none⟩ ∧ p.PathsValid := by
  have loaded : Program.load [0x81, 0, 0x82, 0x80, 0, 0x8a, 0, 0, 0, 0, 0, 99] =
      .ok ⟨.sequence [.exit, .nil], .none⟩ := rfl
  have described : (Program.ofDescription memo).toOption.map
      (·.agrees ⟨.assign (.root "a") (.literal .void), .none⟩) = some true := by decide +kernel
  refine ⟨⟨voucher_valid, voucher_countable,
      dump_is_loaded_back.1 voucher voucher_valid voucher_countable [1, 2, 3]⟩,
    ⟨loaded, (dump_is_loaded_back.2.1 _ _ loaded).2.2 []⟩, ?_⟩
  cases done : Program.ofDescription memo with
  | error e => rw [done] at described; cases described
  | ok p =>
    rw [done] at described
    exact ⟨p, rfl, Option.some.inj described, dump_is_loaded_back.2.2 memo p done⟩

/-- No strict part from the front of a dump is loaded, the bytes being at an end too early; so
the dump of no program stands at the front of the dump of another. -/
theorem truncated_dump_is_refused :
    (∀ p : Program, p.PathsValid → p.Countable → ∀ b, b <+: p.dump → b ≠ p.dump →
      Program.load b = .error .unexpectedEnd) ∧
    (∀ p q : Program, p.PathsValid → p.Countable → q.PathsValid → q.Countable →
      q ≠ p → ¬ q.dump <+: p.dump) := by
  refine ⟨fun p valid countable b => ?_,
    fun p q valid countable valid' countable' other within => ?_⟩
  · exact Program.load_cut (p.valid_and_countable.mp ⟨valid, countable⟩)
  · have first := p.valid_and_countable.mp ⟨valid, countable⟩
    have second := q.valid_and_countable.mp ⟨valid', countable'⟩
    obtain ⟨rest, whole⟩ := within
    have both : Program.load (q.dump ++ rest) = .ok q := Program.load_dump_append second rest
    have again : Program.load (p.dump ++ []) = .ok p := Program.load_dump_append first []
    rw [whole, ← List.append_nil p.dump, again] at both
    exact other (Except.ok.inj both).symm

theorem cut_voucher_is_refused :
    (voucher.dump.take 3 <+: voucher.dump ∧ voucher.dump.take 3 ≠ voucher.dump ∧
      Program.load (voucher.dump.take 3) = .error .unexpectedEnd) ∧
    ((⟨.nil, .none⟩ : Program) ≠ voucher ∧ ¬ Program.dump ⟨.nil, .none⟩ <+: voucher.dump) := by
  have short : voucher.dump.take 3 ≠ voucher.dump := by decide
  have within : voucher.dump.take 3 <+: voucher.dump := List.take_prefix 3 _
  have other : (⟨.nil, .none⟩ : Program) ≠ voucher := nofun
  exact ⟨⟨within, short,
      truncated_dump_is_refused.1 voucher voucher_valid voucher_countable _ within short⟩,
    ⟨other, truncated_dump_is_refused.2 voucher ⟨.nil, .none⟩ voucher_valid voucher_countable
      trivial trivial other⟩⟩

end Orchestration
