import Orchestration.Json.Printer
import Orchestration.Json.Reader

/-!
# Printed JSON is read back

The pretty text of a value is cut into the tokens of the value, whatever its depth of
indentation, as long as what follows does not prolong its last word. A document is put
together from these tokens around the arrays and objects that are open. Numbers have to be
printed as literals that are read as numbers, and names and texts have to be there.
-/

set_option autoImplicit false

namespace Orchestration.Json

/-! ## Words -/

namespace Token

def plain (c : Char) : Bool := !isBlank c && c != '"' && (punctuation? c).isNone

def Delimited : List Char → Prop
  | [] => True
  | c :: _ => plain c = false

theorem scan_plain {c : Char} (fits : plain c = true) (run cs : List Char) :
    scan (.between run) (c :: cs) = scan (.between (c :: run)) cs := by
  simp only [plain, Bool.and_eq_true, Bool.not_eq_true', bne_iff_ne, ne_eq,
    Option.isNone_iff_eq_none] at fits
  obtain ⟨⟨visible, unquoted⟩, none⟩ := fits
  rw [scan, if_neg (by simp [visible]), if_neg unquoted, none]

theorem scan_delimited {cs : List Char} (delimited : Delimited cs) (run : List Char) :
    scan (.between run) cs = ofWord run ++ scan (.between []) cs := by
  cases cs with
  | nil => simp [scan, ofWord]
  | cons c cs =>
    have ends : isBlank c = false → c ≠ '"' → (punctuation? c).isSome = true := by
      simpa [Delimited, plain] using delimited
    rw [scan, scan]
    by_cases blank : isBlank c = true
    · simp [blank, ofWord]
    · by_cases quoted : c = '"'
      · simp [quoted, isBlank, ofWord]
      · obtain ⟨t, mark⟩ : ∃ t, punctuation? c = some t :=
          Option.isSome_iff_exists.mp (ends (by simpa using blank) quoted)
        simp [blank, quoted, mark, ofWord]

theorem scan_word {cs : List Char} (word : List Char) (fits : ∀ c ∈ word, plain c = true)
    (nonempty : word ≠ []) (delimited : Delimited cs) :
    scan (.between []) (word ++ cs) = .word word :: scan (.between []) cs := by
  have whole : ∀ run, scan (.between run) (word ++ cs) =
      scan (.between (word.reverse ++ run)) cs := by
    clear nonempty
    induction word with
    | nil => exact fun run => rfl
    | cons c word ih =>
      intro run
      rw [List.cons_append, scan_plain (fits c (by simp)), ih fun d mem => fits d (by simp [mem])]
      simp
  rw [whole, scan_delimited delimited]
  simp [ofWord, nonempty]

theorem scan_mark {c : Char} {t : Token} (mark : punctuation? c = some t) (cs : List Char) :
    scan (.between []) (c :: cs) = t :: scan (.between []) cs := by
  have visible : isBlank c = false := by
    unfold punctuation? at mark
    split at mark <;> first | rfl | cases mark
  have unquoted : c ≠ '"' := by
    rintro rfl
    cases mark
  rw [scan, if_neg (by simp [visible]), if_neg unquoted, mark]
  rfl

theorem scan_blank {c : Char} (blank : isBlank c = true) (cs : List Char) :
    scan (.between []) (c :: cs) = scan (.between []) cs := by
  rw [scan, if_pos blank]
  rfl

theorem scan_newLine (depth : Nat) (cs : List Char) :
    scan (.between []) (newLine depth ++ cs) = scan (.between []) cs := by
  rw [newLine, List.cons_append, scan_blank (by decide)]
  induction 2 * depth with
  | zero => rfl
  | succ n ih => rw [List.replicate_succ, List.cons_append, scan_blank (by decide), ih]

/-! ## Texts -/

def Standing (piece : Piece) (c : Char) : Prop :=
  ∀ rest, Piece.assemble (piece :: rest) = (Piece.assemble rest).map (c :: ·)

theorem standing_char (c : Char) : Standing (.char c) c := fun _ => rfl

theorem standing_unit {c : Char} (control : c < ' ') : Standing (.unit c.toNat) c := by
  have small : c.toNat < 0x20 := control
  have scalar : c.toNat < 0xD800 ∨ 0xE000 ≤ c.toNat := .inl (by omega)
  intro rest
  rcases rest with _ | ⟨c' | m, rest⟩ <;> simp [Piece.assemble, scalar]

theorem hexValue?_digitChar : ∀ d < 16, hexValue? (Nat.digitChar d) = some d := by decide

theorem scan_hex {m n : Nat} (high : m < 16) (low : n < 16) (pieces : List Piece)
    (cs : List Char) :
    scan (.escaped pieces) ('u' :: '0' :: '0' :: Nat.digitChar m :: Nat.digitChar n :: cs) =
      scan (.quoted (.unit (m * 16 + n) :: pieces)) cs := by
  have zero : hexValue? '0' = some 0 := by decide
  simp [scan, escape?, zero, hexValue?_digitChar m high, hexValue?_digitChar n low]

theorem scan_escapeChar (c : Char) (pieces : List Piece) (cs : List Char) :
    ∃ piece, Standing piece c ∧
      scan (.quoted pieces) (escapeChar c ++ cs) = scan (.quoted (piece :: pieces)) cs := by
  unfold escapeChar
  split
  case h_8 _ unquoted unescaped _ _ _ _ _ =>
    split
    · next control =>
      have small : c.toNat < 0x20 := control
      have whole : c.toNat / 16 * 16 + c.toNat % 16 = c.toNat := by omega
      refine ⟨.unit c.toNat, standing_unit control, ?_⟩
      have high : c.toNat / 16 < 16 := by omega
      have low : c.toNat % 16 < 16 := by omega
      have scanned := scan_hex high low pieces cs
      rw [whole] at scanned
      simp only [List.cons_append, List.nil_append]
      rw [scan, if_neg (by decide), if_pos rfl, scanned]
    · next printable =>
      refine ⟨.char c, standing_char c, ?_⟩
      rw [List.singleton_append, scan, if_neg unquoted, if_neg unescaped, if_neg printable]
  all_goals exact ⟨_, standing_char _, rfl⟩

theorem scan_escaped (text : List Char) (pieces : List Piece) (cs : List Char) :
    ∃ written, scan (.quoted pieces) (text.flatMap escapeChar ++ cs) =
        scan (.quoted (written.reverse ++ pieces)) cs ∧
      ∀ rest, Piece.assemble (written ++ rest) = (Piece.assemble rest).map (text ++ ·) := by
  induction text generalizing pieces with
  | nil => exact ⟨[], rfl, fun rest => by simp⟩
  | cons c text ih =>
    obtain ⟨piece, standing, first⟩ := scan_escapeChar c pieces (text.flatMap escapeChar ++ cs)
    obtain ⟨written, others, assembled⟩ := ih (piece :: pieces)
    refine ⟨piece :: written, ?_, fun rest => ?_⟩
    · rw [List.flatMap_cons, List.append_assoc, first, others]
      simp
    · rw [List.cons_append, standing, assembled, Option.map_map]
      rfl

theorem scan_quote (text : String) (cs : List Char) :
    scan (.between []) (quote (some text) ++ cs) = .text (some text) :: scan (.between []) cs := by
  obtain ⟨written, scanned, assembled⟩ := scan_escaped text.toList [] ('"' :: cs)
  have whole := assembled []
  rw [List.append_nil] at whole
  simp only [quote, Option.getD_some, List.cons_append, List.append_assoc, List.nil_append]
  rw [scan, if_neg (by decide), if_pos rfl, scanned, scan, if_pos rfl]
  simp [ofWord, ofPieces, whole, Piece.assemble]

end Token

/-! ## Values -/

mutual

/-- Values whose text is one of JSON: numbers have the literal of one, texts and names are there. -/
def Printable : Json → Prop
  | .number literal => (Numeral.ofChars? literal).isSome ∧ ∀ c ∈ literal, Token.plain c = true
  | .str text => text.isSome
  | .arr items => AllPrintable items
  | .obj members => MembersPrintable members
  | .bad => False
  | _ => True

def AllPrintable : List Json → Prop
  | [] => True
  | j :: rest => j.Printable ∧ AllPrintable rest

def MembersPrintable : List (Option String × Json) → Prop
  | [] => True
  | (name, j) :: rest => name.isSome ∧ j.Printable ∧ MembersPrintable rest

end

mutual

def tokens : Json → List Token
  | .null => [.word "null".toList]
  | .bool b => [.word (if b then "true" else "false").toList]
  | .number literal => [.word literal]
  | .str text => [.text text]
  | .arr [] => [.arrayOpen, .arrayClose]
  | .arr (j :: rest) => .arrayOpen :: (j.tokens ++ itemTokens rest ++ [.arrayClose])
  | .obj [] => [.objectOpen, .objectClose]
  | .obj ((name, j) :: rest) =>
    .objectOpen :: .text name :: .colon :: (j.tokens ++ memberTokens rest ++ [.objectClose])
  | .bad => [.bad]

def itemTokens : List Json → List Token
  | [] => []
  | j :: rest => .comma :: (j.tokens ++ itemTokens rest)

def memberTokens : List (Option String × Json) → List Token
  | [] => []
  | (name, j) :: rest => .comma :: .text name :: .colon :: (j.tokens ++ memberTokens rest)

end

namespace Token

theorem delimited_items (depth outer : Nat) (items : List Json) (cs : List Char) :
    Delimited (prettyItems depth items ++ (newLine outer ++ cs)) := by
  cases items <;> rfl

theorem delimited_members (depth outer : Nat) (members : List (Option String × Json))
    (cs : List Char) : Delimited (prettyMembers depth members ++ (newLine outer ++ cs)) := by
  rcases members with _ | ⟨⟨name, j⟩, rest⟩ <;> rfl

mutual

theorem scan_pretty : ∀ (j : Json), j.Printable → ∀ (depth : Nat) {cs : List Char},
    Delimited cs → scan (.between []) (j.prettyChars depth ++ cs) =
      j.tokens ++ scan (.between []) cs
  | .null, _, _, cs, delimited =>
    scan_word "null".toList (List.all_eq_true.mp rfl) (by decide) delimited
  | .bool true, _, _, cs, delimited =>
    scan_word "true".toList (List.all_eq_true.mp rfl) (by decide) delimited
  | .bool false, _, _, cs, delimited =>
    scan_word "false".toList (List.all_eq_true.mp rfl) (by decide) delimited
  | .number literal, ⟨reads, fits⟩, _, cs, delimited => by
    have nonempty : literal ≠ [] := by
      rintro rfl
      cases reads
    exact scan_word literal fits nonempty delimited
  | .str (some t), _, _, cs, _ => scan_quote t cs
  | .arr [], _, _, cs, _ => by
    simp only [prettyChars, tokens, List.cons_append, List.nil_append]
    rw [scan_mark rfl, scan_mark rfl]
  | .arr (j :: rest), ⟨first, others⟩, depth, cs, _ => by
    simp only [prettyChars, tokens, List.cons_append, List.append_assoc, List.nil_append]
    rw [scan_mark rfl, scan_newLine, scan_pretty j first _ (delimited_items ..),
      scan_items rest others, scan_newLine, scan_mark rfl]
  | .obj [], _, _, cs, _ => by
    simp only [prettyChars, tokens, List.cons_append, List.nil_append]
    rw [scan_mark rfl, scan_mark rfl]
  | .obj ((some name, j) :: rest), ⟨_, first, others⟩, depth, cs, _ => by
    simp only [prettyChars, tokens, List.cons_append, List.append_assoc, List.nil_append]
    rw [scan_mark rfl, scan_newLine, scan_quote, scan_mark rfl, scan_blank rfl,
      scan_pretty j first _ (delimited_members ..), scan_members rest others, scan_newLine,
      scan_mark rfl]

theorem scan_items : ∀ (items : List Json), AllPrintable items →
    ∀ (depth outer : Nat) (cs : List Char),
    scan (.between []) (prettyItems depth items ++ (newLine outer ++ cs)) =
      itemTokens items ++ scan (.between []) (newLine outer ++ cs)
  | [], _, _, _, _ => rfl
  | j :: rest, ⟨first, others⟩, _, _, cs => by
    simp only [prettyItems, itemTokens, List.cons_append, List.append_assoc]
    rw [scan_mark rfl, scan_newLine, scan_pretty j first _ (delimited_items ..),
      scan_items rest others]

theorem scan_members : ∀ (members : List (Option String × Json)), MembersPrintable members →
    ∀ (depth outer : Nat) (cs : List Char),
    scan (.between []) (prettyMembers depth members ++ (newLine outer ++ cs)) =
      memberTokens members ++ scan (.between []) (newLine outer ++ cs)
  | [], _, _, _, _ => rfl
  | (some name, j) :: rest, ⟨_, first, others⟩, _, _, cs => by
    simp only [prettyMembers, memberTokens, List.cons_append, List.append_assoc]
    rw [scan_mark rfl, scan_newLine, scan_quote, scan_mark rfl, scan_blank rfl,
      scan_pretty j first _ (delimited_members ..), scan_members rest others]

end

theorem ofText_pretty {j : Json} (printable : j.Printable) : ofText j.pretty = j.tokens := by
  have scanned : Token.scan (.between []) (j.prettyChars 0 ++ []) = j.tokens ++ [] :=
    scan_pretty j printable 0 trivial
  rw [List.append_nil, List.append_nil] at scanned
  rw [ofText, pretty, String.toList_ofList, scanned]

end Token

namespace Document

def resume (v : Json) (opened : List Opened) (rest : List Token) : Document :=
  match add? v opened with
  | some opened => build opened .separator rest
  | none => ⟨v, rest.isEmpty⟩

theorem ofWord_number {literal : List Char} (number : (Numeral.ofChars? literal).isSome) :
    ofWord literal = .number literal := by
  have other : ∀ word : List Char, Numeral.ofChars? word = none → literal ≠ word := by
    rintro _ none rfl
    rw [none] at number
    cases number
  rw [ofWord, if_neg (other _ (by decide)), if_neg (other _ (by decide)),
    if_neg (other _ (by decide)), if_pos number]

theorem build_number {literal : List Char} (number : (Numeral.ofChars? literal).isSome)
    (opened : List Opened) (orClose : Bool) (rest : List Token) :
    build opened (.value orClose) (.word literal :: rest) =
      resume (.number literal) opened rest := by
  unfold build
  dsimp only
  rw [ofWord_number number]
  rfl

theorem resume_arr (v : Json) (items : List Json) (outer : List Opened) (rest : List Token) :
    resume v (.arr items :: outer) rest = build (.arr (v :: items) :: outer) .separator rest := rfl

theorem resume_obj (v : Json) (members : List (Option String × Json)) (name : Option String)
    (outer : List Opened) (rest : List Token) :
    resume v (.obj members name :: outer) rest =
      build (.obj ((name, v) :: members) name :: outer) .separator rest := rfl

mutual

theorem build_tokens : ∀ (j : Json), j.Printable → ∀ (opened : List Opened) (orClose : Bool)
    (rest : List Token),
    build opened (.value orClose) (j.tokens ++ rest) = resume j opened rest
  | .null, _, _, _, _ => rfl
  | .bool true, _, _, _, _ => rfl
  | .bool false, _, _, _, _ => rfl
  | .number _, ⟨reads, _⟩, opened, orClose, rest => build_number reads opened orClose rest
  | .str _, _, _, _, _ => rfl
  | .arr [], _, _, _, _ => rfl
  | .arr (j :: items), ⟨first, others⟩, opened, orClose, rest => by
    simp only [tokens, List.cons_append, List.append_assoc]
    change build (.arr [] :: opened) (.value true) _ = _
    rw [build_tokens j first, resume_arr, build_items items others]
    rfl
  | .obj [], _, _, _, _ => rfl
  | .obj ((name, j) :: members), ⟨_, first, others⟩, opened, orClose, rest => by
    simp only [tokens, List.cons_append, List.append_assoc]
    change build (.obj [] name :: opened) (.value false) _ = _
    rw [build_tokens j first, resume_obj, build_members members others]
    rfl

theorem build_items : ∀ (items : List Json), AllPrintable items → ∀ (before : List Json)
    (outer : List Opened) (rest : List Token),
    build (.arr before :: outer) .separator (itemTokens items ++ (.arrayClose :: rest)) =
      resume (.arr (before.reverse ++ items)) outer rest
  | [], _, before, outer, rest => by
    rw [List.append_nil]
    rfl
  | j :: items, ⟨first, others⟩, before, outer, rest => by
    simp only [itemTokens, List.cons_append, List.append_assoc]
    change build (.arr before :: outer) (.value false) _ = _
    rw [build_tokens j first, resume_arr, build_items items others]
    simp

theorem build_members : ∀ (members : List (Option String × Json)), MembersPrintable members →
    ∀ (before : List (Option String × Json)) (last : Option String) (outer : List Opened)
    (rest : List Token),
    build (.obj before last :: outer) .separator (memberTokens members ++ (.objectClose :: rest)) =
      resume (.obj (before.reverse ++ members)) outer rest
  | [], _, before, last, outer, rest => by
    rw [List.append_nil]
    rfl
  | (name, j) :: members, ⟨_, first, others⟩, before, last, outer, rest => by
    simp only [memberTokens, List.cons_append, List.append_assoc]
    change build (.obj before name :: outer) (.value false) _ = _
    rw [build_tokens j first, resume_obj, build_members members others]
    simp

end

/-- The pretty text of a value is a document of that value and nothing else. -/
theorem ofText_pretty {j : Json} (printable : j.Printable) : ofText j.pretty = ⟨j, true⟩ := by
  have built := build_tokens j printable [] false []
  rw [List.append_nil] at built
  rw [ofText, Token.ofText_pretty printable, built]
  rfl

end Document

end Orchestration.Json
