import Orchestration.Description.Write
import Orchestration.Proofs.Decoding
import Orchestration.Proofs.Printing

/-!
# Described programs are read back

The description of a program is a JSON text. Every part of a program has a value that its decoder
restores (`Json.Restores`), as long as there is room for the levels of arrays and objects in it.
The lemmas follow the decoders: one for each way to make a decoder of others, then one for each
kind of part, the recursive ones together. Doubles have no literal that is sure to be read back,
and a path has to be one that its text denotes. With `Document.ofText_pretty` this gives the
whole way, from a program to its text and back.
-/

set_option autoImplicit false

namespace Orchestration

namespace Json

/-! ## Numbers -/

theorem head_toDigits {n : Nat} (pos : 0 < n) :
    ∃ c rest, Nat.toDigits 10 n = c :: rest ∧ c ≠ '0' := by
  induction n using Nat.strongRecOn with
  | ind n ih =>
    by_cases small : n < 10
    · have first : ∀ d < 10, 0 < d → Nat.digitChar d ≠ '0' := by decide
      exact ⟨_, [], Nat.toDigits_of_lt_base small, first n small pos⟩
    · obtain ⟨c, rest, digits, nonzero⟩ := ih (n / 10) (by omega) (by omega)
      rw [Nat.toDigits_of_base_le (by decide) (by omega), digits]
      exact ⟨c, _, rfl, nonzero⟩

theorem digits_toDigits (n : Nat) : ∀ c ∈ Nat.toDigits 10 n, c.isDigit = true :=
  fun _ mem => Nat.isDigit_of_mem_toDigits (by decide) (by decide) mem

namespace Numeral

theorem whole?_toDigits (n : Nat) :
    whole? (Nat.toDigits 10 n) = some (Nat.toDigits 10 n, []) := by
  have span : spanDigits (Nat.toDigits 10 n) = (Nat.toDigits 10 n, []) := by
    rw [spanDigits, List.takeWhile_eq_self_iff.mpr (digits_toDigits n),
      List.dropWhile_eq_nil_iff.mpr (digits_toDigits n)]
  rw [whole?, span]
  rcases Nat.eq_zero_or_pos n with rfl | pos
  · rfl
  · obtain ⟨c, rest, digits, nonzero⟩ := head_toDigits pos
    rw [digits]
    split
    · next eq => cases eq
    · next eq =>
      injection eq with first
      injection first with zero
      exact absurd zero nonzero
    · next eq => cases eq; rfl

theorem ofChars?_nat (n : Nat) :
    ofChars? (Nat.toDigits 10 n) = some ⟨false, Nat.toDigits 10 n, none, none⟩ := by
  have whole := whole?_toDigits n
  have digits := digits_toDigits n
  generalize Nat.toDigits 10 n = literal at *
  cases literal with
  | nil => cases whole
  | cons c rest =>
    have unsigned : c ≠ '-' := by
      rintro rfl
      exact absurd (digits '-' (by simp)) (by decide)
    simp [ofChars?, unsigned, whole, fraction?, exponent?]

theorem ofChars?_negative (n : Nat) :
    ofChars? ('-' :: Nat.toDigits 10 n) = some ⟨true, Nat.toDigits 10 n, none, none⟩ := by
  simp only [ofChars?, whole?_toDigits]
  rfl

end Numeral

theorem int_ofNat (n : Nat) : int n = .number (Nat.toDigits 10 n) := by
  change Json.number (Nat.repr n).toList = _
  rw [Nat.repr, String.toList_ofList]

theorem int_neg {n : Nat} (pos : 0 < n) : int (-n) = .number ('-' :: Nat.toDigits 10 n) := by
  obtain ⟨m, rfl⟩ : ∃ m, n = m + 1 := ⟨n - 1, by omega⟩
  change Json.number ("-" ++ Nat.repr (m + 1)).toList = _
  simp [Nat.repr]

theorem plain_of_isDigit {c : Char} (digit : c.isDigit = true) : Token.plain c = true := by
  have other : ∀ d : Char, d.isDigit = false → c ≠ d := by
    rintro d none rfl
    rw [none] at digit
    cases digit
  have blank : Token.isBlank c = false := by
    simp [Token.isBlank, other ' ' rfl, other '\t' rfl, other '\n' rfl, other '\r' rfl]
  have mark : Token.punctuation? c = none := by
    unfold Token.punctuation?
    split
    all_goals first | rfl | exact absurd rfl (other _ rfl)
  simp [Token.plain, blank, mark, other '"' rfl]

/-! ## What decoders make of the values they are meant for -/

variable {α β σ : Type}

/-- The value has a text and is decoded as wished wherever there is room for it. The decoders of a
family decode their parts by themselves, and there is one for each number of levels below. -/
structure Restores (d : Nat → Decoder α) (j : Json) (a : α) : Prop where
  printable : j.Printable
  decoded : ∀ levels room, j.nesting ≤ room → room ≤ levels → d levels room j = .ok a

namespace Restores

variable {d : Nat → Decoder α} {j : Json} {a : α}

theorem andThen {f : α → Except DecodeError β} {b : β} (restores : Restores d j a)
    (finish : f a = .ok b) : Restores (fun n => (d n).andThen f) j b where
  printable := restores.printable
  decoded levels room fits deep := by
    rw [Decoder.andThen, restores.decoded levels room fits deep]
    exact finish

theorem map (restores : Restores d j a) (f : α → β) :
    Restores (fun n => (d n).andThen fun a => .ok (f a)) j (f a) := restores.andThen rfl

theorem null : Restores (fun n => Decoder.nullable (d n)) .null none :=
  ⟨trivial, fun _ _ _ _ => rfl⟩

theorem present (restores : Restores d j a) (there : j ≠ .null) :
    Restores (fun n => Decoder.nullable (d n)) j (some a) where
  printable := restores.printable
  decoded levels room fits deep := by
    unfold Decoder.nullable
    split
    · exact absurd rfl there
    · rw [restores.decoded levels room fits deep]
      rfl

theorem array {as : List α} {write : α → Json} (each : ∀ a ∈ as, Restores d (write a) a) :
    Restores (fun n => Decoder.array (d n)) (.arr (as.map write)) as where
  printable := by
    change AllPrintable _
    induction as with
    | nil => trivial
    | cons a as ih =>
      obtain ⟨first, others⟩ := List.forall_mem_cons.mp each
      exact ⟨first.printable, ih others⟩
  decoded levels room fits deep := by
    obtain _ | room := room
    · exact absurd fits (Nat.not_succ_le_zero _)
    have inside : itemsNesting (as.map write) ≤ room := Nat.le_of_succ_le_succ fits
    change Decoder.readAll (d levels room) (as.map write) = .ok as
    clear fits
    induction as with
    | nil => rfl
    | cons a as ih =>
      obtain ⟨first, others⟩ := List.forall_mem_cons.mp each
      obtain ⟨fits, rest⟩ := Nat.max_le.mp inside
      rw [List.map_cons, Decoder.readAll, first.decoded levels room fits (by omega), ih others rest]
      rfl

theorem unit {units : String → Option α} {contents : Nat → String → Option (Decoder α)}
    {name : String} (named : units name = some a) :
    Restores (fun n => Decoder.case units (contents n)) (.text name) a where
  printable := rfl
  decoded levels room _ _ := by
    obtain _ | room := room <;> simp [Decoder.case, Json.text, named, Decoder.require]

theorem case {units : String → Option α} {contents : Nat → String → Option (Decoder α)}
    {name : String} (other : units name = none) (restores : Restores d j a)
    (named : ∀ n, contents (n + 1) name = some (d n)) :
    Restores (fun n => Decoder.case units (contents n)) (.case name j) a where
  printable := ⟨rfl, restores.printable, trivial⟩
  decoded levels room fits deep := by
    obtain _ | room := room
    · exact absurd fits (Nat.not_succ_le_zero _)
    obtain _ | levels := levels
    · exact absurd deep (Nat.not_succ_le_zero _)
    have inside : j.nesting ≤ room :=
      (Nat.le_max_left _ _).trans (Nat.le_of_succ_le_succ fits)
    have content := restores.decoded levels room inside (Nat.le_of_succ_le_succ deep)
    simp [Decoder.case, Json.case, Json.record, other, named, content]

theorem recursive {body : Decoder α → Decoder α}
    (restores : Restores (fun n => body (Decoder.nested body n)) j a) :
    Restores (fun _ => Decoder.recursive body) j a where
  printable := restores.printable
  decoded _ room fits _ := restores.decoded room room fits (Nat.le_refl _)

end Restores

/-! ## Records -/

inductive Fills (fields : Nat → List (Decoder.Field σ)) :
    List (String × Json) → σ → σ → Prop
  | done (s : σ) : Fills fields [] s s
  | field {α : Type} {d : Nat → Decoder α} {slot : σ → Option α} {fill : σ → α → σ} {name : String}
      {j : Json} {a : α} {ms : List (String × Json)} {s s' : σ} :
      (∀ n, (fields n).find? (·.name = name) = some (Decoder.field name (d n) slot fill)) →
      slot s = none → Restores d j a → Fills fields ms (fill s a) s' →
      Fills fields ((name, j) :: ms) s s'

theorem Fills.printable {fields : Nat → List (Decoder.Field σ)} {ms : List (String × Json)}
    {s s' : σ} (fills : Fills fields ms s s') :
    MembersPrintable (ms.map fun m => (some m.1, m.2)) := by
  induction fills with
  | done s => trivial
  | field _ _ restores _ ih => exact ⟨rfl, restores.printable, ih⟩

theorem Fills.readMembers {fields : Nat → List (Decoder.Field σ)} {closed : Bool}
    {ms : List (String × Json)} {s s' : σ} (fills : Fills fields ms s s') {levels room : Nat}
    (fits : membersNesting (ms.map fun m => (some m.1, m.2)) ≤ room) (deep : room ≤ levels) :
    Decoder.readMembers (fun s name j => Decoder.member (fields levels) closed s name room j)
      (ms.map fun m => (some m.1, m.2)) s = .ok s' := by
  induction fills with
  | done s => rfl
  | @field α d slot fill name j a ms s s' found free restores _ ih =>
    obtain ⟨here, others⟩ := Nat.max_le.mp fits
    have step : Decoder.member (fields levels) closed s name room j = .ok (fill s a) := by
      unfold Decoder.member
      rw [found]
      simp [Decoder.field, free, Decoder.andThen, restores.decoded levels room here deep]
      rfl
    rw [List.map_cons, Decoder.readMembers, step]
    exact ih others

theorem Restores.record {fields : Nat → List (Decoder.Field σ)} {closed : Bool}
    {ms : List (String × Json)} {start s : σ} (fills : Fills fields ms start s) :
    Restores (fun n => Decoder.record (fields n) closed start) (.record ms) s where
  printable := fills.printable
  decoded levels room fits deep := by
    obtain _ | room := room
    · exact absurd fits (Nat.not_succ_le_zero _)
    exact fills.readMembers (Nat.le_of_succ_le_succ fits) (by omega)

/-! ## Scalars -/

theorem restores_string (s : String) : Restores (fun _ => Decoder.string) (.text s) s :=
  ⟨rfl, fun _ _ _ _ => rfl⟩

theorem restores_bool (b : Bool) : Restores (fun _ => Decoder.bool) (.bool b) b :=
  ⟨trivial, fun _ _ _ _ => rfl⟩

theorem restores_numeral {literal : List Char} {n : Numeral}
    (reads : Numeral.ofChars? literal = some n) (fits : ∀ c ∈ literal, Token.plain c = true) :
    Restores (fun _ => Decoder.numeral) (.number literal) n where
  printable := ⟨by rw [reads]; rfl, fits⟩
  decoded _ _ _ _ := by
    rw [Decoder.numeral, reads]
    rfl

theorem restores_digits (n : Nat) : Restores (fun _ => Decoder.numeral) (.nat n)
    ⟨false, Nat.toDigits 10 n, none, none⟩ :=
  restores_numeral (Numeral.ofChars?_nat n) fun c mem => plain_of_isDigit (digits_toDigits n c mem)

theorem Numeral.nat?_toDigits (n : Nat) :
    (Numeral.mk false (Nat.toDigits 10 n) none none).nat? = some n := by
  simp [Numeral.nat?, Nat.ofDigitChars_ten_toDigits]

theorem restores_nat {n bound : Nat} (small : n < bound) :
    Restores (fun _ => Decoder.natBelow bound) (.nat n) n := by
  refine (restores_digits n).andThen ?_
  rw [Numeral.nat?_toDigits, Option.filter_some, if_pos (by simpa using small)]
  rfl

theorem restores_word (n : UInt64) : Restores (fun _ => Decoder.word64) (.nat n.toNat) n :=
  (restores_nat n.toNat_lt).andThen (congrArg Except.ok UInt64.ofNat_toNat)

theorem restores_whole (i : Int) : ∃ n : Numeral, n.int? = some i ∧
    Restores (fun _ => Decoder.numeral) (.int i) n := by
  obtain ⟨n, rfl | rfl⟩ := i.eq_nat_or_neg
  · rw [int_ofNat]
    refine ⟨_, ?_, restores_digits n⟩
    simp [Numeral.int?, Numeral.nat?_toDigits]
  · rcases Nat.eq_zero_or_pos n with rfl | pos
    · exact ⟨_, rfl, restores_digits 0⟩
    · rw [int_neg pos]
      refine ⟨_, ?_, restores_numeral (Numeral.ofChars?_negative n) ?_⟩
      · simp [Numeral.int?, Nat.ofDigitChars_ten_toDigits, pos.ne']
      · exact List.forall_mem_cons.mpr
          ⟨by decide, fun c mem => plain_of_isDigit (digits_toDigits n c mem)⟩

theorem restores_int (n : Int64) : Restores (fun _ => Decoder.int64) (.int n.toInt) n := by
  obtain ⟨numeral, reads, restores⟩ := restores_whole n.toInt
  refine restores.andThen ?_
  have range : Int64.minValue.toInt ≤ n.toInt ∧ n.toInt ≤ Int64.maxValue.toInt :=
    ⟨n.minValue_le_toInt, n.toInt_le⟩
  simp only [reads, Option.filter_some, decide_eq_true range, if_true, Option.map_some,
    Int64.ofInt_toInt]
  rfl

end Json

open Json Json.Decoder

/-! ## Values, paths and targets -/

def Value.isDouble : Value → Bool
  | .double _ => true
  | _ => false

theorem Value.restores {v : Value} (exact : v.isDouble = false) :
    Restores (fun _ => Value.ofJson) v.toJson v := by
  cases v with
  | void => exact .unit rfl
  | bool b => exact .case rfl ((restores_bool b).map Value.bool) fun _ => rfl
  | int n => exact .case rfl ((restores_int n).map Value.int) fun _ => rfl
  | double x => cases exact
  | str s => exact .case rfl ((restores_string s).map Value.str) fun _ => rfl

theorem Path.restores {p : Path} (valid : p.Valid) :
    Restores (fun _ => Decoder.path) p.toJson p := by
  refine (restores_string p.text).andThen ?_
  simp only [ofText_text valid]

theorem Target.restores (t : Target) : Restores (fun _ => Target.ofJson) t.toJson t := by
  cases t with
  | fault name => exact .case rfl ((restores_string name).map Target.fault) fun _ => rfl
  | default => exact .unit rfl
  | this => exact .unit rfl

/-! ## Expressions -/

namespace Expr

mutual

def literals : Expr → List Value
  | .literal v => [v]
  | .path _ => []
  | .concat parts => allLiterals parts

def allLiterals : List Expr → List Value
  | [] => []
  | e :: rest => e.literals ++ allLiterals rest

end

def DoubleFree (e : Expr) : Prop := ∀ v ∈ e.literals, v.isDouble = false

abbrev ofJsonWithin (levels : Nat) : Decoder Expr :=
  Decoder.case (fun _ => none)
    (contents (nested (fun self => Decoder.case (fun _ => none) (contents self)) levels))

theorem allToJson_eq (es : List Expr) : allToJson es = es.map toJson := by
  induction es with
  | nil => rfl
  | cons e es ih => rw [allToJson, ih, List.map_cons]

mutual

theorem restores_within : ∀ (e : Expr), e.PathsValid → e.DoubleFree →
    Restores ofJsonWithin e.toJson e
  | .literal v, _, free =>
    .case rfl ((Value.restores (free v List.mem_cons_self)).map Expr.literal) fun _ => rfl
  | .path p, valid, _ => .case rfl ((Path.restores valid).map Expr.path) fun _ => rfl
  | .concat parts, ⟨_, valid⟩, free => by
    rw [toJson, allToJson_eq]
    exact .case rfl ((Restores.array (all_restore_within parts valid free)).map Expr.concat)
      fun _ => rfl

theorem all_restore_within : ∀ (es : List Expr), MeetAll Path.Valid (fun _ => True) es →
    (∀ v ∈ allLiterals es, v.isDouble = false) → ∀ e ∈ es, Restores ofJsonWithin e.toJson e
  | [], _, _ => nofun
  | e :: rest, ⟨first, others⟩, free => by
    obtain ⟨here, there⟩ := List.forall_mem_append.mp free
    exact List.forall_mem_cons.mpr
      ⟨restores_within e first here, all_restore_within rest others there⟩

end

theorem restores {e : Expr} (valid : e.PathsValid) (free : e.DoubleFree) :
    Restores (fun _ => Expr.ofJson) e.toJson e := .recursive (restores_within e valid free)

theorem restores_all {es : List Expr} (valid : MeetAll Path.Valid (fun _ => True) es)
    (free : ∀ v ∈ allLiterals es, v.isDouble = false) :
    Restores (fun _ => Decoder.array Expr.ofJson) (.arr (allToJson es)) es := by
  rw [allToJson_eq]
  exact .array fun e mem => .recursive (all_restore_within es valid free e mem)

def optionLiterals : Option Expr → List Value
  | none => []
  | some e => e.literals

theorem restores_option {o : Option Expr} (valid : ∀ e ∈ o, e.PathsValid)
    (free : ∀ v ∈ optionLiterals o, v.isDouble = false) :
    Restores (fun _ => nullable Expr.ofJson) (optionToJson o) o := by
  cases o with
  | none => exact .null
  | some e =>
    refine (restores (valid e rfl) free).present ?_
    cases e <;> nofun

end Expr

/-! ## Activities -/

namespace Activity

mutual

def literals : Activity → List Value
  | .sequence ps => allLiterals ps
  | .parallel ps => allLiterals ps
  | .assign _ value => value.literals
  | .print parts => Expr.allLiterals parts
  | .throw _ payload => Expr.optionLiterals payload
  | .kill _ payload => Expr.optionLiterals payload
  | .install handlers => handlerLiterals handlers
  | .scope _ body _ => body.literals
  | _ => []

def allLiterals : List Activity → List Value
  | [] => []
  | p :: rest => p.literals ++ allLiterals rest

def handlerLiterals : List (Target × Activity) → List Value
  | [] => []
  | (_, p) :: rest => p.literals ++ handlerLiterals rest

end

def DoubleFree (p : Activity) : Prop := ∀ v ∈ p.literals, v.isDouble = false

abbrev ofJsonWithin (levels : Nat) : Decoder Activity :=
  Decoder.case units (contents (nested (fun self => Decoder.case units (contents self)) levels))

theorem allToJson_eq (ps : List Activity) : allToJson ps = ps.map toJson := by
  induction ps with
  | nil => rfl
  | cons p ps ih => rw [allToJson, ih, List.map_cons]

def handlerToJson (h : Target × Activity) : Json :=
  .record [("target", h.1.toJson), ("handler", h.2.toJson)]

theorem handlersToJson_eq (hs : List (Target × Activity)) :
    handlersToJson hs = hs.map handlerToJson := by
  induction hs with
  | nil => rfl
  | cons h hs ih =>
    rw [handlersToJson, ih, List.map_cons]
    rfl

theorem restores_assign {path : Path} {value : Expr} (target : path.Valid)
    (valid : value.PathsValid) (free : value.DoubleFree) :
    Restores (fun _ => assignOfJson)
      (.record [("path", path.toJson), ("value", value.toJson)]) (.assign path value) := by
  refine (Restores.record (.field (fun _ => rfl) rfl (Path.restores target)
    (.field (fun _ => rfl) rfl (Expr.restores valid free) (.done _)))).andThen ?_
  rfl

theorem restores_fault (make : String → Option Expr → Activity) {name : String}
    {payload : Option Expr} (valid : ∀ e ∈ payload, e.PathsValid)
    (free : ∀ v ∈ Expr.optionLiterals payload, v.isDouble = false) :
    Restores (fun _ => faultOfJson make)
      (.record [("fault", .text name), ("payload", Expr.optionToJson payload)])
      (make name payload) := by
  refine (Restores.record (.field (fun _ => rfl) rfl (restores_string name)
    (.field (fun _ => rfl) rfl (Expr.restores_option valid free) (.done _)))).andThen ?_
  rfl

theorem restores_handler {self : Nat → Decoder Activity} {t : Target} {p : Activity}
    (restores : Restores self p.toJson p) :
    Restores (fun n => handlerOfJson (self n)) (handlerToJson (t, p)) (t, p) := by
  refine (Restores.record (.field (fun _ => rfl) rfl t.restores
    (.field (fun _ => rfl) rfl restores (.done _)))).andThen ?_
  rfl

theorem restores_scope {self : Nat → Decoder Activity} {id : String} {body : Activity}
    {autoPop : Bool} (restores : Restores self body.toJson body) :
    Restores (fun n => scopeOfJson (self n)) (scopeToJson id body.toJson autoPop)
      ⟨id, body, autoPop⟩ := by
  refine (Restores.record (.field (fun _ => rfl) rfl (restores_string id)
    (.field (fun _ => rfl) rfl restores
      (.field (fun _ => rfl) rfl (restores_bool autoPop) (.done _))))).andThen ?_
  rfl

mutual

theorem restores_within : ∀ (p : Activity), p.PathsValid → p.DoubleFree →
    Restores ofJsonWithin p.toJson p
  | .nil, _, _ => .unit rfl
  | .sequence ps, ⟨_, valid⟩, free => by
    rw [toJson, allToJson_eq]
    exact .case rfl ((Restores.array (all_restore_within ps valid free)).map Activity.sequence)
      fun _ => rfl
  | .parallel ps, ⟨_, valid⟩, free => by
    rw [toJson, allToJson_eq]
    exact .case rfl ((Restores.array (all_restore_within ps valid free)).map Activity.parallel)
      fun _ => rfl
  | .assign _ _, ⟨target, valid⟩, free =>
    .case rfl (restores_assign target valid free) fun _ => rfl
  | .print _, ⟨_, valid⟩, free =>
    .case rfl ((Expr.restores_all valid free).map Activity.print) fun _ => rfl
  | .throw _ _, ⟨_, valid⟩, free => .case rfl (restores_fault .throw valid free) fun _ => rfl
  | .kill _ _, ⟨_, valid⟩, free => .case rfl (restores_fault .kill valid free) fun _ => rfl
  | .install handlers, ⟨_, valid⟩, free => by
    rw [toJson, handlersToJson_eq]
    exact .case rfl
      ((Restores.array (handlers_restore_within handlers valid free)).map Activity.install)
      fun _ => rfl
  | .compensate id, _, _ =>
    .case rfl ((restores_string id).map Activity.compensate) fun _ => rfl
  | .scope _ body _, ⟨_, valid⟩, free =>
    .case rfl ((restores_scope (restores_within body valid free)).map ScopeDefinition.activity)
      fun _ => rfl
  | .exit, _, _ => .unit rfl

theorem all_restore_within : ∀ (ps : List Activity), MeetAll Path.Valid (fun _ => True) ps →
    (∀ v ∈ allLiterals ps, v.isDouble = false) → ∀ p ∈ ps, Restores ofJsonWithin p.toJson p
  | [], _, _ => nofun
  | p :: rest, ⟨first, others⟩, free => by
    obtain ⟨here, there⟩ := List.forall_mem_append.mp free
    exact List.forall_mem_cons.mpr
      ⟨restores_within p first here, all_restore_within rest others there⟩

theorem handlers_restore_within : ∀ (hs : List (Target × Activity)),
    MeetHandlers Path.Valid (fun _ => True) hs →
    (∀ v ∈ handlerLiterals hs, v.isDouble = false) →
    ∀ h ∈ hs, Restores (fun n => handlerOfJson (ofJsonWithin n)) (handlerToJson h) h
  | [], _, _ => nofun
  | (_, p) :: rest, ⟨_, first, others⟩, free => by
    obtain ⟨here, there⟩ := List.forall_mem_append.mp free
    exact List.forall_mem_cons.mpr
      ⟨restores_handler (restores_within p first here), handlers_restore_within rest others there⟩

end

theorem restores {p : Activity} (valid : p.PathsValid) (free : p.DoubleFree) :
    Restores (fun _ => Activity.ofJson) p.toJson p := .recursive (restores_within p valid free)

end Activity

/-! ## Limits -/

theorem Duration.restores (d : Duration) : Restores (fun _ => Duration.ofJson) d.toJson d := by
  have nanos : d.nanos < UInt32.size := d.nanos_lt.trans (by decide)
  refine (Restores.record (.field (fun _ => rfl) rfl (restores_nat d.secs.toNat_lt)
    (.field (fun _ => rfl) rfl (restores_nat nanos) (.done _)))).andThen ?_
  change require (ofParts? d.secs.toNat d.nanos) = .ok d
  rw [d.ofParts?_self]
  rfl

namespace Limits

theorem restores_word (o : Option UInt64) :
    Restores (fun _ => nullable word64) (wordToJson o) o := by
  cases o with
  | none => exact .null
  | some n => exact (Json.restores_word n).present nofun

theorem restores_duration (o : Option Duration) :
    Restores (fun _ => nullable Duration.ofJson) (durationToJson o) o := by
  cases o with
  | none => exact .null
  | some d => exact d.restores.present nofun

theorem restores (l : Limits) : Restores (fun _ => Limits.ofJson) l.toJson l := by
  refine (Restores.record (.field (fun _ => rfl) rfl (restores_word l.maxScopeDepth)
    (.field (fun _ => rfl) rfl (restores_word l.maxOperations)
      (.field (fun _ => rfl) rfl (restores_duration l.maxDuration) (.done _))))).andThen ?_
  rfl

end Limits

/-! ## Programs -/

namespace Program

def DoubleFree (p : Program) : Prop := p.main.DoubleFree

theorem restores {p : Program} (valid : p.PathsValid) (free : p.DoubleFree) :
    Restores (fun _ => Program.ofJson) p.toJson p := by
  refine (Restores.record (.field (fun _ => rfl) rfl (Activity.restores valid free)
    (.field (fun _ => rfl) rfl p.limits.restores (.done _)))).andThen ?_
  rfl

end Program

/-- A program that holds no double and whose paths are well formed is read back from its
description, unless that nests more arrays and objects than a reader allows for. -/
theorem description_is_read_back (p : Program) (valid : p.PathsValid) (free : p.DoubleFree)
    (flat : p.toJson.nesting ≤ maxNesting) : Program.ofDescription p.description = .ok p := by
  have restores := Program.restores valid free
  have read : Program.ofJson maxNesting p.toJson = .ok p :=
    restores.decoded maxNesting maxNesting flat (Nat.le_refl _)
  unfold Program.ofDescription decodeText Program.description
  rw [Document.ofText_pretty restores.printable]
  dsimp only
  rw [read]
  rfl

/-- A program with an activity of each kind, among whose texts are a quote, a backslash, a control
character and characters beyond ASCII. -/
def consignment : Program :=
  ⟨.scope "order \"7\"" (.sequence [
      .install [
        (.fault "Refused", .assign ⟨⟨"order", 0⟩, [⟨"items", 18446744073709551615⟩, ⟨"price", 2⟩]⟩
          (.concat [.literal (.int (-9223372036854775808)), .path (.root "größe"), .concat []])),
        (.default, .parallel []),
        (.this, .print [.literal (.str "back\\slash\n\x01"), .literal .void])],
      .parallel [.scope "payment" (.throw "Refused" none) false,
        .kill "Stop" (some (.literal (.bool true))), .compensate "order \"7\""],
      .throw "𝄞" (some (.literal (.str "€"))), .nil, .exit]) true,
    ⟨some 0, some 18446744073709551615, some ⟨18446744073709551615, 999999999, by decide⟩⟩⟩

theorem consignment_is_read_back :
    consignment.PathsValid ∧ consignment.DoubleFree ∧ consignment.toJson.nesting ≤ maxNesting ∧
      Program.ofDescription consignment.description = .ok consignment := by
  have valid : consignment.PathsValid := by
    simp only [consignment, Program.PathsValid, Activity.Meets, Activity.MeetAll,
      Activity.MeetHandlers, Target.Meets, Expr.Meets, Expr.MeetAll, Value.Meets]
    simp [Expr.Meets, Value.Meets]
    decide
  have free : consignment.DoubleFree := by unfold Program.DoubleFree Activity.DoubleFree; decide
  have flat : consignment.toJson.nesting ≤ maxNesting := by decide
  exact ⟨valid, free, flat, description_is_read_back consignment valid free flat⟩

end Orchestration
