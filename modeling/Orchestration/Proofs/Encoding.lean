import Mathlib.Data.String.Basic
import Orchestration.Binary

/-!
# Readers and what is written for them

A writer and a reader belong together when the reader takes back exactly the bytes
of a value, whatever follows them, and reports the end of the bytes on every strict
part from their front. Both halves compose: a value that is written piece by piece
is read piece by piece. The length of a piece is bounded by the levels that a
recursive reader has left.
-/

set_option autoImplicit false

namespace Orchestration.Binary

variable {α β : Type} {levels : Nat}

/-- The value's bytes, and how the reader takes them: whole, and cut short. -/
structure Reads (levels : Nat) (r : Reader α) (bytes : Bytes) (a : α) : Prop where
  whole : bytes.length < levels → ∀ t, r (bytes ++ t) = .ok (a, t)
  cut : ∀ part, part <+: bytes → part ≠ bytes → part.length < levels →
    r part = .error .unexpectedEnd

def Gives (P : α → Prop) (r : Reader α) : Prop :=
  ∀ bytes a rest, r bytes = .ok (a, rest) → P a

/-! ## Composition -/

theorem cut_append {part first second : Bytes} (within : part <+: first ++ second)
    (short : part ≠ first ++ second) :
    (part <+: first ∧ part ≠ first) ∨
      ∃ more, part = first ++ more ∧ more <+: second ∧ more ≠ second := by
  obtain ⟨rest, whole⟩ := within
  obtain ⟨missing, split, _⟩ | ⟨more, split, inner⟩ := List.append_eq_append_iff.mp whole
  · by_cases all : part = first
    · refine .inr ⟨[], by simp [all], List.nil_prefix, ?_⟩
      rintro rfl
      exact short (by simp [all])
    · exact .inl ⟨⟨missing, split.symm⟩, all⟩
  · exact .inr ⟨more, split, ⟨rest, inner.symm⟩, fun eq => short (by rw [split, eq])⟩

namespace Reads

variable {r : Reader α} {f : α → Reader β} {first second : Bytes} {a : α} {b : β}

theorem zero (r : Reader α) (bytes : Bytes) (a : α) : Reads 0 r bytes a :=
  ⟨fun none => absurd none (Nat.not_lt_zero _), fun _ _ _ none => absurd none (Nat.not_lt_zero _)⟩

theorem pure (a : α) : Reads levels (Read.pure a) [] a :=
  ⟨fun _ _ => rfl, fun _ within short => absurd (List.prefix_nil.mp within) short⟩

theorem andThen (head : Reads levels r first a) (tail : Reads levels (f a) second b) :
    Reads levels (Read.andThen r f) (first ++ second) b := by
  constructor
  · intro room t
    rw [List.length_append] at room
    rw [Read.andThen, List.append_assoc, head.whole (by omega)]
    exact tail.whole (by omega) t
  · intro part within short room
    obtain ⟨inner, strict⟩ | ⟨more, rfl, inner, strict⟩ := cut_append within short
    · rw [Read.andThen, head.cut part inner strict room]
    · rw [List.length_append] at room
      rw [Read.andThen, head.whole (by omega)]
      exact tail.cut more inner strict (by omega)

theorem deeper (head : ∀ levels, Reads levels r first a) (some : first ≠ [])
    (tail : Reads levels (f a) second b) :
    Reads (levels + 1) (Read.andThen r f) (first ++ second) b := by
  have pos : 0 < first.length := List.length_pos_iff.mpr some
  constructor
  · intro room t
    rw [List.length_append] at room
    rw [Read.andThen, List.append_assoc, (head (first.length + 1)).whole (Nat.lt_succ_self _)]
    exact tail.whole (by omega) t
  · intro part within short room
    obtain ⟨inner, strict⟩ | ⟨more, rfl, inner, strict⟩ := cut_append within short
    · rw [Read.andThen, (head (part.length + 1)).cut part inner strict (Nat.lt_succ_self _)]
    · rw [List.length_append] at room
      rw [Read.andThen, (head (first.length + 1)).whole (Nat.lt_succ_self _)]
      exact tail.cut more inner strict (by omega)

theorem finish (read : Reads levels r first a) (last : f a = Read.pure b) :
    Reads levels (Read.andThen r f) first b := by
  rw [← List.append_nil first]
  exact read.andThen (last ▸ pure b)

theorem map {f : α → β} (read : Reads levels r first a) (back : f a = b) :
    Reads levels (Read.map f r) first b :=
  read.finish (congrArg Read.pure back)

/-- With a level for every byte and one more, the levels do not matter. -/
theorem recursive {body : Reader α → Reader α} {bytes : Bytes}
    (read : ∀ levels, Reads levels (Read.nested body levels) bytes a) :
    Reads levels (Read.recursive body) bytes a := by
  constructor
  · intro _ t
    exact (read _).whole (by rw [List.length_append]; omega) t
  · intro part within short _
    exact (read _).cut part within short (Nat.lt_succ_self _)

theorem many {write : α → Bytes} (as : List α) (each : ∀ a ∈ as, Reads levels r (write a) a) :
    Reads levels (Read.many r as.length) (as.flatMap write) as := by
  induction as with
  | nil => exact pure []
  | cons a as ih =>
    rw [List.flatMap_cons]
    exact (each a (by simp)).andThen ((ih fun x mem => each x (by simp [mem])).map rfl)

end Reads

/-! ## Numbers -/

theorem reads_byte (b : UInt8) : Reads levels Read.byte [b] b := by
  refine ⟨fun _ _ => rfl, fun part within short _ => ?_⟩
  have empty : part = [] := by
    obtain rfl | ⟨rest, rfl, last⟩ := List.prefix_cons_iff.mp within
    · rfl
    · exact absurd (by rw [List.prefix_nil.mp last]) short
  rw [empty]
  rfl

theorem Reads.behind {f : UInt8 → Reader β} {b : UInt8} {bytes : Bytes} {a : β}
    (rest : Reads levels (f b) bytes a) :
    Reads levels (Read.andThen Read.byte f) (b :: bytes) a :=
  (reads_byte b).andThen rest

theorem toNat_ofNat_of_lt {n : Nat} (small : n < 256) : (UInt8.ofNat n).toNat = n :=
  UInt8.toNat_ofNat_of_lt' small

theorem reads_varint {last limit n : Nat} (fits : last < 128) (small : n < 128 ^ limit * (last + 1)) :
    Reads levels (Read.varint last (limit + 1)) (varint (limit + 1) n) n := by
  induction limit generalizing n with
  | zero =>
    have low : n < 128 := by omega
    have value := toNat_ofNat_of_lt (n := n) (by omega)
    rw [varint, if_pos low, Read.varint]
    apply Reads.behind
    rw [value, if_pos low, if_neg (by omega)]
    exact .pure n
  | succ limit ih =>
    by_cases low : n < 128
    · have value := toNat_ofNat_of_lt (n := n) (by omega)
      rw [varint, if_pos low, Read.varint]
      apply Reads.behind
      rw [value, if_pos low, if_neg (by omega)]
      exact .pure n
    · have value := toNat_ofNat_of_lt (n := n % 128 + 128) (by omega)
      have rest : n / 128 < 128 ^ limit * (last + 1) := by
        apply Nat.div_lt_of_lt_mul
        rwa [Nat.pow_succ, Nat.mul_right_comm, Nat.mul_comm] at small
      have whole : n % 128 + 128 - 128 + 128 * (n / 128) = n := by omega
      rw [varint, if_neg low, Read.varint]
      apply Reads.behind
      rw [value, if_neg (by omega)]
      exact (ih rest).map whole

theorem reads_nat64 {n : Nat} (small : n < UInt64.size) : Reads levels Read.nat64 (nat64 n) n :=
  reads_varint (by decide) small

theorem reads_nat32 {n : Nat} (small : n < UInt32.size) : Reads levels Read.nat32 (nat32 n) n :=
  reads_varint (by decide) small

theorem Reads.case {f : Nat → Reader β} {bytes : Bytes} {b : β} (n : Nat) (small : n < UInt32.size)
    (content : Reads levels (f n) bytes b) :
    Reads (levels + 1) (Read.andThen Read.nat32 f) (nat32 n ++ bytes) b := by
  refine .deeper (fun _ => reads_nat32 small) ?_ content
  rw [nat32, varint]
  split <;> simp

theorem unzigzag_zigzag (n : Int) : Read.unzigzag (zigzag n) = n := by
  unfold zigzag Read.unzigzag
  split
  · rw [if_pos (by omega)]; omega
  · rw [if_neg (by omega)]; omega

theorem zigzag_lt (n : Int64) : zigzag n.toInt < UInt64.size := by
  have low : -2 ^ 63 ≤ n.toInt := n.le_toInt
  have high : n.toInt < 2 ^ 63 := n.toInt_lt
  have size : UInt64.size = 2 * 2 ^ 63 := rfl
  unfold zigzag
  split <;> omega

theorem reads_int64 (n : Int64) : Reads levels Read.int64 (int64 n) n := by
  have back : Int64.ofInt (Read.unzigzag (zigzag n.toInt)) = n := by
    rw [unzigzag_zigzag, Int64.ofInt_toInt]
  exact (reads_nat64 (zigzag_lt n)).map back

theorem reads_littleEndian {count n : Nat} (small : n < 256 ^ count) :
    Reads levels (Read.littleEndian count) (littleEndian count n) n := by
  induction count generalizing n with
  | zero =>
    obtain rfl : n = 0 := by simpa using small
    exact .pure 0
  | succ count ih =>
    have value := toNat_ofNat_of_lt (n := n % 256) (by omega)
    have rest : n / 256 < 256 ^ count := by
      apply Nat.div_lt_of_lt_mul
      rwa [Nat.pow_succ, Nat.mul_comm] at small
    have whole : n % 256 + 256 * (n / 256) = n := by omega
    rw [littleEndian, Read.littleEndian]
    apply Reads.behind
    rw [value]
    exact (ih rest).map whole

theorem reads_double (x : Double) : Reads levels Read.double (double x) x := by
  have back : (⟨UInt64.ofNat x.bits.toNat⟩ : Double) = x := by rw [UInt64.ofNat_toNat]
  exact (reads_littleEndian x.bits.toNat_lt).map back

theorem reads_flag (error : LoadError) (b : Bool) :
    Reads levels (Read.flag error) [if b then 1 else 0] b := by
  apply Reads.behind
  cases b with
  | false => exact .pure false
  | true => exact .pure true

/-! ## Texts, options and lists -/

theorem reads_take (bytes : Bytes) : Reads levels (Read.take bytes.length) bytes bytes := by
  constructor
  · intro _ t
    simp [Read.take]
  · intro part within short _
    have shorter : part.length < bytes.length :=
      Nat.lt_of_le_of_ne within.length_le fun eq => short (within.eq_of_length eq)
    rw [Read.take, if_pos shorter]

theorem fromUTF8?_toUTF8 (s : String) : String.fromUTF8? s.toUTF8 = some s := by
  have valid : s.toUTF8.IsValidUTF8 := s.isValidUTF8
  rw [String.fromUTF8?, dif_pos valid]
  rfl

theorem reads_string {s : String} (small : s.utf8ByteSize < UInt64.size) :
    Reads levels Read.string (string s) s := by
  have text : Read.utf8 s.toUTF8.data.toList = Read.pure s := by
    rw [Read.utf8, show (⟨s.toUTF8.data.toList.toArray⟩ : ByteArray) = s.toUTF8 by simp,
      fromUTF8?_toUTF8]
  exact (reads_nat64 small).andThen ((reads_take _).finish text)

theorem reads_option {r : Reader α} {write : α → Bytes} {o : Option α}
    (each : ∀ a ∈ o, Reads levels r (write a) a) :
    Reads levels (Read.option r) (option write o) o := by
  cases o with
  | none => exact (reads_flag .badOption false).finish rfl
  | some a => exact (reads_flag .badOption true).andThen ((each a rfl).map rfl)

theorem reads_list {r : Reader α} {write : α → Bytes} {as : List α}
    (small : as.length < UInt64.size) (each : ∀ a ∈ as, Reads levels r (write a) a) :
    Reads levels (Read.list r) (nat64 as.length ++ as.flatMap write) as :=
  (reads_nat64 small).andThen (.many as each)

/-! ## What is read -/

namespace Gives

variable {P : α → Prop} {Q : β → Prop} {r : Reader α} {f : α → Reader β}

theorem mono {P' : α → Prop} (given : Gives P r) (weaker : ∀ a, P a → P' a) : Gives P' r :=
  fun bytes a rest done => weaker a (given bytes a rest done)

theorem pure {a : α} (holds : P a) : Gives P (Read.pure a) := by
  rintro bytes _ rest ⟨⟩
  exact holds

theorem fail (e : LoadError) : Gives P (Read.fail e) := nofun

theorem andThen (given : Gives P r) (each : ∀ a, P a → Gives Q (f a)) :
    Gives Q (Read.andThen r f) := by
  intro bytes b rest done
  rw [Read.andThen] at done
  split at done
  · next a more read => exact each a (given bytes a more read) more b rest done
  · cases done

theorem map {g : α → β} (given : Gives P r) (each : ∀ a, P a → Q (g a)) :
    Gives Q (Read.map g r) :=
  given.andThen fun a holds => .pure (each a holds)

theorem any (r : Reader α) : Gives (fun _ => True) r := fun _ _ _ _ => trivial

theorem option (given : Gives P r) : Gives (fun o => ∀ a ∈ o, P a) (Read.option r) := by
  refine (any _).andThen fun present _ => ?_
  split
  · exact given.map fun a holds b eq => Option.some.inj eq ▸ holds
  · exact .pure nofun

theorem many (given : Gives P r) (count : Nat) :
    Gives (fun as => as.length = count ∧ ∀ a ∈ as, P a) (Read.many r count) := by
  induction count with
  | zero => exact .pure ⟨rfl, nofun⟩
  | succ count ih =>
    refine given.andThen fun a first => ih.map fun as ⟨length, rest⟩ => ⟨by simp [length], ?_⟩
    exact List.forall_mem_cons.mpr ⟨first, rest⟩

theorem nested {body : Reader α → Reader α} (step : ∀ self, Gives P self → Gives P (body self))
    (levels : Nat) : Gives P (Read.nested body levels) := by
  induction levels with
  | zero => exact .fail _
  | succ levels ih => exact step _ ih

theorem recursive {body : Reader α → Reader α}
    (step : ∀ self, Gives P self → Gives P (body self)) : Gives P (Read.recursive body) :=
  fun bytes => nested step _ bytes

end Gives

theorem gives_varint (last limit : Nat) :
    Gives (· < 128 ^ limit * (last + 1)) (Read.varint last (limit + 1)) := by
  induction limit with
  | zero =>
    rw [Read.varint]
    refine (Gives.any _).andThen fun b _ => ?_
    split
    · split
      · exact .fail _
      · exact .pure (by omega)
    · exact Gives.map (P := fun _ => False) (.fail _) fun _ => False.elim
  | succ limit ih =>
    rw [Read.varint]
    refine (Gives.any _).andThen fun b _ => ?_
    have digit : b.toNat - 128 < 128 := by have := b.toNat_lt; omega
    split
    · next low =>
      split
      · exact .fail _
      · refine .pure ?_
        calc b.toNat < 128 := low
          _ ≤ 128 ^ (limit + 1) := Nat.le_self_pow (by omega) _
          _ ≤ 128 ^ (limit + 1) * (last + 1) := Nat.le_mul_of_pos_right _ (Nat.succ_pos _)
    · refine ih.map fun n small => ?_
      rw [Nat.pow_succ, Nat.mul_right_comm]
      omega

theorem gives_nat64 : Gives (· < UInt64.size) Read.nat64 := gives_varint 1 9

theorem gives_take (count : Nat) : Gives (·.length = count) (Read.take count) := by
  intro bytes taken rest done
  unfold Read.take at done
  split at done
  · cases done
  · cases done
    rw [List.length_take]
    omega

theorem gives_utf8 (bytes : Bytes) : Gives (·.utf8ByteSize = bytes.length) (Read.utf8 bytes) := by
  unfold Read.utf8
  split
  · next s text =>
    rw [String.fromUTF8?] at text
    split at text
    · cases text
      exact .pure rfl
    · cases text
  · exact .fail _

theorem gives_string : Gives (·.utf8ByteSize < UInt64.size) Read.string :=
  gives_nat64.andThen fun count small => (gives_take count).andThen fun bytes length =>
    (gives_utf8 bytes).mono fun s size => by omega

theorem gives_list {P : α → Prop} {r : Reader α} (given : Gives P r) :
    Gives (fun as => as.length < UInt64.size ∧ ∀ a ∈ as, P a) (Read.list r) :=
  gives_nat64.andThen fun count small => (given.many count).mono fun _ ⟨length, each⟩ =>
    ⟨length ▸ small, each⟩

end Orchestration.Binary
