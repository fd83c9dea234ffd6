import Mathlib.Data.List.Forall2
import Mathlib.Data.List.Induction
import Mathlib.Data.List.TakeWhile
import Orchestration.Path.Text

/-!
# The grammar of paths

A path is written as one or more segments with single dots between them, a segment as a
name that an index in brackets may follow, and an index as decimal digits, perhaps
behind a plus sign. The reader goes another way: it splits a text at its dots, each part at
its first bracket, and takes one closing bracket off the end. It accepts exactly the texts of
the grammar, and reads each of them as the only path that it is a text of.
-/

set_option autoImplicit false

namespace Orchestration

theorem ok_of_bind {ε α β : Type} {x : Except ε α} {f : α → Except ε β} {b : β}
    (done : x >>= f = .ok b) : ∃ a, x = .ok a ∧ f a = .ok b := by
  cases x with
  | error e => cases done
  | ok a => exact ⟨a, rfl, done⟩

namespace Path

/-! ## The texts of a path -/

/-- The digits stand for the number, whatever zeros are in front. -/
inductive Digits : List Char → Nat → Prop
  | single {d : Nat} : d < 10 → Digits [Nat.digitChar d] d
  | behind {cs : List Char} {n d : Nat} : Digits cs n → d < 10 →
      Digits (cs ++ [Nat.digitChar d]) (10 * n + d)

/-- What may follow a name: nothing, which stands for the first element, or an index in brackets. -/
inductive Indexing : List Char → UInt64 → Prop
  | omitted : Indexing [] 0
  | bracketed {sign digits : List Char} {n : Nat} : sign = [] ∨ sign = ['+'] →
      Digits digits n → n < UInt64.size → Indexing ('[' :: (sign ++ digits ++ [']'])) (.ofNat n)

end Path

inductive Segment.Written : List Char → Segment → Prop
  | intro {s : Segment} {indexing : List Char} : s.Valid → Path.Indexing indexing s.index →
      Written (s.name.toList ++ indexing) s

inductive Path.Written : List Char → Path → Prop
  | single {cs : List Char} {s : Segment} : s.Written cs → Written cs ⟨s, []⟩
  | dotted {cs rest : List Char} {s : Segment} {p : Path} : s.Written cs → Written rest p →
      Written (cs ++ '.' :: rest) ⟨s, p.segments⟩

namespace Path

/-! ## The parts of a text -/

def dotted (part : List Char) (others : List (List Char)) : List Char :=
  part ++ others.flatMap ('.' :: ·)

theorem dotted_cons (part next : List Char) (others : List (List Char)) :
    dotted part (next :: others) = part ++ '.' :: dotted next others := by
  simp [dotted]

theorem parts_of_free {cs : List Char} (free : '.' ∉ cs) : parts cs = [cs] := by
  induction cs with
  | nil => rfl
  | cons c cs ih =>
    rw [List.mem_cons, not_or] at free
    simp [parts, Ne.symm free.1, ih free.2]

theorem parts_append {part : List Char} (cs : List Char) (free : '.' ∉ part) :
    parts (part ++ '.' :: cs) = part :: parts cs := by
  induction part with
  | nil => simp [parts]
  | cons c part ih =>
    rw [List.mem_cons, not_or] at free
    simp [parts, Ne.symm free.1, ih free.2]

theorem parts_dotted {part : List Char} {others : List (List Char)} (free : '.' ∉ part)
    (rest : ∀ p ∈ others, '.' ∉ p) : parts (dotted part others) = part :: others := by
  induction others generalizing part with
  | nil => simpa [dotted] using parts_of_free free
  | cons next others ih =>
    rw [dotted_cons, parts_append _ free,
      ih (rest next (by simp)) fun p mem => rest p (by simp [mem])]

theorem exists_parts (cs : List Char) :
    ∃ part others, parts cs = part :: others ∧ cs = dotted part others ∧
      ∀ p ∈ part :: others, '.' ∉ p := by
  induction cs with
  | nil => exact ⟨[], [], rfl, rfl, by simp⟩
  | cons c cs ih =>
    obtain ⟨part, others, split, whole, free⟩ := ih
    by_cases dot : c = '.'
    · refine ⟨[], part :: others, ?_, ?_, ?_⟩
      · simp [parts, dot, split]
      · simp [dotted_cons, dot, whole]
      · simpa using free
    · refine ⟨c :: part, others, ?_, ?_, ?_⟩
      · simp [parts, dot, split]
      · simp [dotted, whole]
      · simp only [List.forall_mem_cons] at free ⊢
        exact ⟨by simp [Ne.symm dot, free.1], free.2⟩

/-! ## Indices -/

theorem beforeClosing?_append (cs : List Char) : beforeClosing? (cs ++ [']']) = some cs := by
  induction cs with
  | nil => rfl
  | cons c cs ih => cases cs <;> simp_all [beforeClosing?]

theorem eq_of_beforeClosing? {cs before : List Char} (closed : beforeClosing? cs = some before) :
    cs = before ++ [']'] := by
  induction cs generalizing before with
  | nil => cases closed
  | cons c cs ih =>
    cases cs with
    | nil =>
      rw [beforeClosing?] at closed
      split at closed
      · next bracket => cases closed; simp [bracket]
      · cases closed
    | cons d cs =>
      rw [beforeClosing?, Option.map_eq_some_iff] at closed
      · obtain ⟨between, inner, rfl⟩ := closed
        rw [ih inner, List.cons_append]
      · simp

theorem exists_digit {c : Char} (digit : c.isDigit) : ∃ d < 10, c = Nat.digitChar d := by
  obtain ⟨low, high⟩ := Char.isDigit_iff_toNat.mp digit
  have low : 48 ≤ c.toNat := low
  have high : c.toNat ≤ 57 := high
  refine ⟨c.toNat - 48, by omega, Char.toNat_inj.mp ?_⟩
  rw [Nat.toNat_digitChar_of_lt_ten (by omega)]
  omega

theorem ofDigitChars_concat (cs : List Char) {d : Nat} (small : d < 10) :
    Nat.ofDigitChars 10 (cs ++ [Nat.digitChar d]) 0 = 10 * Nat.ofDigitChars 10 cs 0 + d := by
  have value : (Nat.digitChar d).toNat - '0'.toNat = d := by
    rw [Nat.toNat_digitChar_of_lt_ten small]
    exact Nat.add_sub_cancel_left 48 d
  rw [Nat.ofDigitChars_append]
  exact congrArg (10 * Nat.ofDigitChars 10 cs 0 + ·) value

theorem Digits.value {cs : List Char} {n : Nat} (digits : Digits cs n) :
    cs ≠ [] ∧ (∀ c ∈ cs, c.isDigit) ∧ n = Nat.ofDigitChars 10 cs 0 := by
  induction digits with
  | single small =>
    have value := ofDigitChars_concat [] small
    exact ⟨by simp, by simpa [Nat.isDigit_digitChar] using small, by simpa using value.symm⟩
  | behind digits small ih =>
    obtain ⟨nonempty, all, rfl⟩ := ih
    refine ⟨by simp, List.forall_mem_append.mpr ⟨all, ?_⟩, (ofDigitChars_concat _ small).symm⟩
    simpa [Nat.isDigit_digitChar] using small

theorem digits_of_isDigit {cs : List Char} (nonempty : cs ≠ []) (all : ∀ c ∈ cs, c.isDigit) :
    Digits cs (Nat.ofDigitChars 10 cs 0) := by
  induction cs using List.reverseRecOn with
  | nil => exact absurd rfl nonempty
  | append_singleton cs c ih =>
    obtain ⟨before, last⟩ := List.forall_mem_append.mp all
    obtain ⟨d, small, rfl⟩ := exists_digit (last c (by simp))
    rw [ofDigitChars_concat cs small]
    by_cases first : cs = []
    · subst first
      simpa using Digits.single small
    · exact .behind (ih first before) small

theorem readIndex?_of_digits {digits : List Char} {n : Nat} (h : Digits digits n)
    (small : n < UInt64.size) {sign : List Char} (signed : sign = [] ∨ sign = ['+']) :
    readIndex? (sign ++ digits) = some (.ofNat n) := by
  obtain ⟨nonempty, all, rfl⟩ := h.value
  have unsigned : ∀ rest, digits ≠ '+' :: rest := by
    rintro rest rfl
    exact absurd (all '+' (by simp)) (by decide)
  have form : digits ≠ [] ∧ digits.all Char.isDigit := ⟨nonempty, List.all_eq_true.mpr all⟩
  rcases signed with rfl | rfl
  · unfold readIndex?
    simp only [List.nil_append]
    rw [if_pos form, if_pos small]
  · exact (if_pos form).trans (if_pos small)

theorem digits_of_readIndex? {cs : List Char} {index : UInt64}
    (read : readIndex? cs = some index) :
    ∃ sign digits n, cs = sign ++ digits ∧ (sign = [] ∨ sign = ['+']) ∧ Digits digits n ∧
      n < UInt64.size ∧ index = .ofNat n := by
  unfold readIndex? at read
  extract_lets digits at read
  have signed : ∃ sign, cs = sign ++ digits ∧ (sign = [] ∨ sign = ['+']) := by
    unfold digits
    split
    · exact ⟨['+'], rfl, .inr rfl⟩
    · exact ⟨[], rfl, .inl rfl⟩
  obtain ⟨sign, whole, signed⟩ := signed
  split at read
  · next form =>
    split at read
    · next small =>
      cases read
      exact ⟨sign, digits, _, whole, signed,
        digits_of_isDigit form.1 (List.all_eq_true.mp form.2), small, rfl⟩
    · cases read
  · cases read

/-! ## Segments -/

theorem readName_eq_ok_iff (name : List Char) (index : UInt64) (s : Segment) :
    readName name index = .ok s ↔ name ≠ [] ∧ ']' ∉ name ∧ s = ⟨String.ofList name, index⟩ := by
  by_cases nonempty : name = []
  · simp [readName, nonempty]
  · by_cases bracket : ']' ∈ name <;> simp [readName, nonempty, bracket, eq_comm]

theorem readSegment_of_free {part : List Char} (free : '[' ∉ part) :
    readSegment part = readName part 0 := by
  have all : ∀ c ∈ part, decide (c ≠ '[') = true := fun c mem => by
    simpa using fun eq : c = '[' => free (eq ▸ mem)
  have rest : part.dropWhile (· ≠ '[') = [] := List.dropWhile_eq_nil_iff.mpr all
  have name : part.takeWhile (· ≠ '[') = part := List.takeWhile_eq_self_iff.mpr all
  unfold readSegment
  rw [rest, name]

theorem readSegment_of_open {name : List Char} (bracketed : List Char) (free : '[' ∉ name) :
    readSegment (name ++ '[' :: bracketed) =
      match beforeClosing? bracketed with
      | none => .error .unterminatedIndex
      | some digits =>
        match readIndex? digits with
        | none => .error .indexNotNumber
        | some index => readName name index := by
  have all : ∀ c ∈ name, decide (c ≠ '[') = true := fun c mem => by
    simpa using fun eq : c = '[' => free (eq ▸ mem)
  have rest : (name ++ '[' :: bracketed).dropWhile (· ≠ '[') = '[' :: bracketed := by
    rw [List.dropWhile_append_of_pos all]; simp
  have before : (name ++ '[' :: bracketed).takeWhile (· ≠ '[') = name := by
    rw [List.takeWhile_append_of_pos all]; simp
  cases closed : beforeClosing? bracketed with
  | none => simp only [readSegment, rest, closed]
  | some digits =>
    cases number : readIndex? digits <;>
      simp only [readSegment, rest, before, closed, number]

theorem readSegment_of_written {part : List Char} {s : Segment} (written : s.Written part) :
    readSegment part = .ok s := by
  obtain ⟨⟨nonempty, free⟩, indexing⟩ := written
  have unopened : '[' ∉ s.name.toList := fun mem => (free _ mem).2.1 rfl
  have closed : ']' ∉ s.name.toList := fun mem => (free _ mem).2.2 rfl
  have named : readName s.name.toList s.index = .ok s := by
    rw [readName_eq_ok_iff, String.ofList_toList]
    exact ⟨by simpa using nonempty, closed, rfl⟩
  generalize s.index = index at *
  cases indexing with
  | omitted => rwa [List.append_nil, readSegment_of_free unopened]
  | bracketed signed digits small =>
    rw [readSegment_of_open _ unopened, beforeClosing?_append]
    simp only [readIndex?_of_digits digits small signed]
    exact named

theorem written_of_readName {name indexing : List Char} {index : UInt64} {s : Segment}
    (undotted : '.' ∉ name) (unopened : '[' ∉ name) (indexed : Indexing indexing index)
    (read : readName name index = .ok s) : s.Written (name ++ indexing) := by
  obtain ⟨nonempty, closed, rfl⟩ := (readName_eq_ok_iff ..).mp read
  have valid : Segment.Valid ⟨String.ofList name, index⟩ := by
    refine ⟨by simpa using nonempty, ?_⟩
    intro c mem
    rw [String.toList_ofList] at mem
    exact ⟨fun eq => undotted (eq ▸ mem), fun eq => unopened (eq ▸ mem),
      fun eq => closed (eq ▸ mem)⟩
  have written := Segment.Written.intro valid indexed
  rwa [String.toList_ofList] at written

theorem written_of_readSegment {part : List Char} {s : Segment} (free : '.' ∉ part)
    (read : readSegment part = .ok s) : s.Written part := by
  by_cases bracket : '[' ∈ part
  · obtain ⟨name, bracketed, rfl, unopened⟩ := List.eq_append_cons_of_mem bracket
    have undotted : '.' ∉ name := fun mem => free (List.mem_append_left _ mem)
    rw [readSegment_of_open _ unopened] at read
    split at read
    · cases read
    · next inside closed =>
      split at read
      · cases read
      · next index number =>
        obtain ⟨sign, digits, n, rfl, signed, value, small, rfl⟩ := digits_of_readIndex? number
        rw [eq_of_beforeClosing? closed]
        exact written_of_readName undotted unopened (.bracketed signed value small) read
  · rw [readSegment_of_free bracket] at read
    have written := written_of_readName free bracket .omitted read
    rwa [List.append_nil] at written

theorem not_mem_of_written {part : List Char} {s : Segment} (written : s.Written part) :
    '.' ∉ part := by
  obtain ⟨valid, indexing⟩ := written
  have name : '.' ∉ s.name.toList := fun mem => (valid.2 _ mem).1 rfl
  generalize s.index = index at indexing
  cases indexing with
  | omitted => simpa using name
  | @bracketed sign digits n signed value small =>
    have number : '.' ∉ digits := fun mem => absurd (value.value.2.1 _ mem) (by decide)
    rcases signed with rfl | rfl <;> simp [name, number]

theorem not_mem_of_all_written {parts : List (List Char)} {segments : List Segment}
    (written : List.Forall₂ (fun part s => s.Written part) parts segments) :
    ∀ part ∈ parts, '.' ∉ part := by
  induction written with
  | nil => simp
  | cons head tail ih => exact List.forall_mem_cons.mpr ⟨not_mem_of_written head, ih⟩

/-! ## Paths -/

theorem readSegments_eq_ok_iff {parts : List (List Char)} (free : ∀ part ∈ parts, '.' ∉ part)
    (segments : List Segment) :
    readSegments parts = .ok segments ↔
      List.Forall₂ (fun part s => s.Written part) parts segments := by
  induction parts generalizing segments with
  | nil =>
    rw [List.forall₂_nil_left_iff]
    exact ⟨fun read => by cases read; rfl, fun none => none ▸ rfl⟩
  | cons part parts ih =>
    obtain ⟨here, others⟩ := List.forall_mem_cons.mp free
    constructor
    · intro read
      rw [readSegments] at read
      obtain ⟨s, head, read⟩ := ok_of_bind read
      obtain ⟨rest, tail, read⟩ := ok_of_bind read
      cases read
      exact .cons (written_of_readSegment here head) ((ih others rest).mp tail)
    · intro written
      cases written with
      | cons head tail =>
        rw [readSegments, readSegment_of_written head, (ih others _).mpr tail]
        rfl

theorem written_iff (cs : List Char) (p : Path) :
    p.Written cs ↔ ∃ part others, cs = dotted part others ∧ p.first.Written part ∧
      List.Forall₂ (fun part s => s.Written part) others p.rest := by
  constructor
  · intro written
    induction written with
    | @single cs s head => exact ⟨cs, [], by simp [dotted], head, .nil⟩
    | @dotted cs rest s p head tail ih =>
      obtain ⟨part, others, rfl, first, following⟩ := ih
      exact ⟨cs, part :: others, (dotted_cons ..).symm, head, .cons first following⟩
  · rintro ⟨part, others, rfl, head, tail⟩
    obtain ⟨first, rest⟩ := p
    dsimp only at head tail
    induction tail generalizing part first with
    | nil => simpa [dotted] using Written.single head
    | cons next following ih =>
      rw [dotted_cons]
      exact .dotted head (ih _ _ next)

theorem read_eq_ok_iff (cs : List Char) (p : Path) : read cs = .ok p ↔ p.Written cs := by
  rw [written_iff]
  constructor
  · intro done
    obtain ⟨part, others, split, whole, free⟩ := exists_parts cs
    obtain ⟨here, following⟩ := List.forall_mem_cons.mp free
    rw [read, split] at done
    obtain ⟨first, head, done⟩ := ok_of_bind done
    obtain ⟨rest, tail, done⟩ := ok_of_bind done
    cases done
    exact ⟨part, others, whole, written_of_readSegment here head,
      (readSegments_eq_ok_iff following rest).mp tail⟩
  · rintro ⟨part, others, rfl, head, tail⟩
    have following := not_mem_of_all_written tail
    rw [read, parts_dotted (not_mem_of_written head) following]
    simp only [readSegment_of_written head, (readSegments_eq_ok_iff following p.rest).mpr tail]
    rfl

theorem ofText_eq_ok_iff (text : String) (p : Path) :
    ofText text = .ok p ↔ p.Written text.toList := by
  rw [← read_eq_ok_iff, ofText]
  cases read text.toList <;> simp

/-- A text is read as a path exactly if it is a text of that path. Any other text is refused, and
the error carries it. -/
theorem path_is_read_by_its_grammar (text : String) :
    (∀ p, ofText text = .ok p ↔ p.Written text.toList) ∧
      ((∃ flaw, ofText text = .error ⟨text, flaw⟩) ↔ ∀ p : Path, ¬ p.Written text.toList) := by
  refine ⟨ofText_eq_ok_iff text, ?_⟩
  have accepted : (∀ p : Path, ¬ p.Written text.toList) ↔ ∀ p, ofText text ≠ .ok p :=
    forall_congr' fun p => not_congr (ofText_eq_ok_iff text p).symm
  rw [accepted, ofText]
  cases read text.toList <;> simp

example : Written "net price.items[+007]".toList ⟨⟨"net price", 0⟩, [⟨"items", 7⟩]⟩ := by
  rw [← ofText_eq_ok_iff]
  decide

end Path

end Orchestration
