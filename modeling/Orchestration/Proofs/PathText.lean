import Mathlib.Data.String.Basic
import Orchestration.Proofs.PathGrammar

/-!
# Written paths are read back

A valid path is written as one of its texts, so it is read back from there. Of all
texts of a path this one is the shortest: the others differ from it in plus signs, in zeros in
front of an index, and in indices of 0.
-/

set_option autoImplicit false

namespace Orchestration

namespace Path

/-! ## Indices -/

theorem digits_toDigits (n : Nat) : Digits (Nat.toDigits 10 n) n := by
  have all : ∀ c ∈ Nat.toDigits 10 n, c.isDigit := fun c mem =>
    Nat.isDigit_of_mem_toDigits (by decide) (by decide) mem
  have digits := digits_of_isDigit Nat.toDigits_ne_nil all
  rwa [Nat.ofDigitChars_ten_toDigits] at digits

theorem Digits.toDigits_suffix {digits : List Char} {n : Nat} (h : Digits digits n) :
    Nat.toDigits 10 n <:+ digits := by
  induction h with
  | single small => simp [Nat.toDigits_of_lt_base small]
  | @behind cs n d digits small ih =>
    have last : Nat.toDigits 10 d = [Nat.digitChar d] := Nat.toDigits_of_lt_base small
    by_cases zero : n = 0
    · rw [zero, Nat.mul_zero, Nat.zero_add, last]
      exact List.suffix_append cs [Nat.digitChar d]
    · rw [← Nat.toDigits_append_toDigits (by decide) (Nat.pos_of_ne_zero zero) small, last]
      exact (List.suffix_append_inj_of_length_eq rfl).mpr ⟨ih, rfl⟩

theorem indexing_toDigits (index : UInt64) :
    Indexing ('[' :: (Nat.toDigits 10 index.toNat ++ [']'])) index := by
  have written := Indexing.bracketed (.inl rfl) (digits_toDigits index.toNat) index.toNat_lt
  rwa [UInt64.ofNat_toNat] at written

theorem Indexing.sublist {indexing : List Char} {index : UInt64} (h : Indexing indexing index)
    (other : index ≠ 0) : ('[' :: (Nat.toDigits 10 index.toNat ++ [']'])).Sublist indexing := by
  cases h with
  | omitted => exact absurd rfl other
  | @bracketed sign digits n signed value small =>
    rw [UInt64.toNat_ofNat_of_lt' small]
    have shorter : (Nat.toDigits 10 n).Sublist (sign ++ digits) :=
      value.toDigits_suffix.sublist.trans (List.sublist_append_right sign digits)
    exact (shorter.append (.refl [']'])).cons_cons '['

end Path

/-! ## Segments -/

namespace Segment

theorem written_chars {s : Segment} (valid : s.Valid) : s.Written s.chars := by
  unfold chars
  split
  · next first =>
    have written := Written.intro valid (first ▸ Path.Indexing.omitted)
    rwa [List.append_nil] at written
  · exact .intro valid (Path.indexing_toDigits s.index)

theorem Written.valid {part : List Char} {s : Segment} (written : s.Written part) : s.Valid := by
  cases written
  assumption

theorem Written.sublist {part : List Char} {s : Segment} (written : s.Written part) :
    s.chars.Sublist part := by
  obtain ⟨valid, indexing⟩ := written
  unfold chars
  split
  · exact List.sublist_append_left ..
  · next other => exact (List.Sublist.refl s.name.toList).append (indexing.sublist other)

end Segment

/-! ## Paths -/

namespace Path

theorem chars_eq_dotted (p : Path) :
    p.chars = dotted p.first.chars (p.rest.map Segment.chars) := by
  obtain ⟨first, rest⟩ := p
  show rest.foldl (fun text s => text ++ '.' :: s.chars) first.chars = _
  generalize first.chars = written
  induction rest generalizing written with
  | nil => simp [dotted]
  | cons s rest ih => rw [List.foldl_cons, ih, List.map_cons, dotted_cons]; simp [dotted]

theorem written_chars {p : Path} (valid : p.Valid) : p.Written p.chars := by
  obtain ⟨head, tail⟩ := List.forall_mem_cons.mp valid
  refine (written_iff ..).mpr ⟨_, _, chars_eq_dotted p, Segment.written_chars head, ?_⟩
  rw [List.forall₂_map_left_iff, List.forall₂_same]
  exact fun s among => Segment.written_chars (tail s among)

theorem ofText_text {p : Path} (valid : p.Valid) : ofText p.text = .ok p := by
  rw [ofText_eq_ok_iff, text, String.toList_ofList]
  exact written_chars valid

theorem Written.valid {cs : List Char} {p : Path} (written : p.Written cs) : p.Valid := by
  induction written with
  | single head => exact List.forall_mem_singleton.mpr head.valid
  | dotted head tail ih => exact List.forall_mem_cons.mpr ⟨head.valid, ih⟩

theorem Written.sublist {cs : List Char} {p : Path} (written : p.Written cs) :
    p.chars.Sublist cs := by
  induction written with
  | single head => exact head.sublist
  | @dotted cs rest s p head tail ih =>
    rw [chars_eq_dotted] at ih ⊢
    exact (dotted_cons ..).symm ▸ head.sublist.append (ih.cons_cons '.')

theorem valid_of_ofText {text : String} {p : Path} (done : ofText text = .ok p) : p.Valid :=
  ((ofText_eq_ok_iff text p).mp done).valid

theorem size_text_le {text : String} {p : Path} (done : ofText text = .ok p) :
    p.text.utf8ByteSize ≤ text.utf8ByteSize := by
  have within : p.chars.Sublist text.toList := ((ofText_eq_ok_iff text p).mp done).sublist
  rw [Path.text, String.utf8ByteSize_ofList, ← String.utf8Len_toList]
  exact String.utf8Len_le_of_sublist within

theorem segments_of_ofSegments? {segments : List Segment} {p : Path}
    (built : ofSegments? segments = some p) : p.segments = segments := by
  cases segments with
  | nil => cases built
  | cons s rest => cases built; rfl

theorem segments_joined (joined : List Segment) (p : Path) :
    (joined.foldl join p).segments = p.segments ++ joined := by
  induction joined generalizing p with
  | nil => exact (List.append_nil _).symm
  | cons s joined ih =>
    have next : (p.join s).segments = p.segments ++ [s] := rfl
    rw [List.foldl_cons, ih, next, List.append_assoc, List.singleton_append]

def normal? (text : String) : Option String := (ofText text).toOption.map Path.text

theorem normal?_of_ofText {text : String} {p : Path} (done : ofText text = .ok p) :
    normal? text = some p.text := by
  rw [normal?, done]
  rfl

/-- A path that is put together from valid segments is read back from its text, and no other one has
the same text. What is read from any text is valid, it is read again from its own text, and its own
text is the one that is written for both. -/
theorem path_text_is_normal_form :
    (∀ (segments joined : List Segment) (p : Path), ofSegments? segments = some p →
      (∀ s ∈ segments ++ joined, s.Valid) →
        (joined.foldl join p).segments = segments ++ joined ∧
          ofText (joined.foldl join p).text = .ok (joined.foldl join p)) ∧
    (∀ p q : Path, p.Valid → q.Valid → p.text = q.text → p = q) ∧
    ∀ (text : String) (p : Path), ofText text = .ok p →
      p.Valid ∧ ofText p.text = .ok p ∧ normal? text = some p.text ∧
        normal? p.text = some p.text := by
  refine ⟨?_, ?_, ?_⟩
  · intro segments joined p built valid
    have whole : (joined.foldl join p).segments = segments ++ joined := by
      rw [segments_joined, segments_of_ofSegments? built]
    refine ⟨whole, ofText_text ?_⟩
    unfold Path.Valid
    rwa [whole]
  · intro p q valid valid' same
    have back := ofText_text valid
    rw [same, ofText_text valid'] at back
    exact (Except.ok.inj back).symm
  · intro text p done
    have valid := valid_of_ofText done
    have back := ofText_text valid
    exact ⟨valid, back, normal?_of_ofText done, normal?_of_ofText back⟩

theorem items_text_is_normal_form :
    let last : Segment := ⟨"net price", 18446744073709551615⟩
    let p : Path := ⟨⟨"order", 0⟩, [⟨"items", 7⟩]⟩
    (∀ s ∈ p.segments ++ [last], s.Valid) ∧
      (p.join last).text = "order.items[7].net price[18446744073709551615]" ∧
      ofText (p.join last).text = .ok (p.join last) ∧
      ((root "order").join ⟨"items", 7⟩).text = p.text ∧ (root "order").join ⟨"items", 7⟩ = p ∧
      ofText "order[0].items[+007]" = .ok p ∧ p.text = "order.items[7]" ∧
      normal? "order[0].items[+007]" = some p.text ∧ normal? p.text = some p.text := by
  intro last p
  have valid : ∀ s ∈ p.segments ++ [last], s.Valid := by decide
  have done : ofText "order[0].items[+007]" = .ok p := by decide
  have same : ((root "order").join ⟨"items", 7⟩).text = p.text := by decide
  obtain ⟨built, injective, read⟩ := path_text_is_normal_form
  have back := (built p.segments [last] p rfl valid).2
  have unique := injective _ p (by decide) (by decide) same
  obtain ⟨-, -, normal, again⟩ := read _ p done
  exact ⟨valid, by decide, back, same, unique, done, by decide, normal, again⟩

end Path

end Orchestration
