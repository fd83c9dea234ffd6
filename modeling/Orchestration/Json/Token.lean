/-!
# JSON tokens

A text is cut into punctuation, strings and words. A word is a run of other
characters between blanks, punctuation and quotes: a literal name or a number, or
neither. An error inside a string ends the text with the token `bad`.
-/

set_option autoImplicit false

namespace Orchestration.Json

inductive Token where
  | arrayOpen
  | arrayClose
  | objectOpen
  | objectClose
  | comma
  | colon
  | word (chars : List Char)
  | text (t : Option String)
  | bad
  deriving DecidableEq, Repr

/-- A piece of a string: a character, or a UTF-16 unit written as an escape. -/
inductive Piece where
  | char (c : Char)
  | unit (n : Nat)
  deriving DecidableEq, Repr

namespace Piece

/-- The characters of a string; none if a surrogate has no partner right beside it. -/
def assemble : List Piece → Option (List Char)
  | [] => some []
  | .char c :: rest => (assemble rest).map (c :: ·)
  | .unit n :: rest =>
    if n < 0xD800 ∨ 0xE000 ≤ n then (assemble rest).map (Char.ofNat n :: ·)
    else match rest with
      | .unit m :: rest =>
        if n < 0xDC00 ∧ 0xDC00 ≤ m ∧ m < 0xE000 then
          (assemble rest).map (Char.ofNat (0x10000 + (n - 0xD800) * 0x400 + (m - 0xDC00)) :: ·)
        else none
      | _ => none

end Piece

namespace Token

def isBlank (c : Char) : Bool := c = ' ' || c = '\t' || c = '\n' || c = '\r'

def punctuation? : Char → Option Token
  | '[' => some .arrayOpen
  | ']' => some .arrayClose
  | '{' => some .objectOpen
  | '}' => some .objectClose
  | ',' => some .comma
  | ':' => some .colon
  | _ => none

def escape? : Char → Option Char
  | '"' => some '"'
  | '\\' => some '\\'
  | '/' => some '/'
  | 'b' => some '\x08'
  | 'f' => some '\x0c'
  | 'n' => some '\n'
  | 'r' => some '\r'
  | 't' => some '\t'
  | _ => none

def hexValue? (c : Char) : Option Nat :=
  if c.isDigit then some (c.toNat - '0'.toNat)
  else if 'a' ≤ c ∧ c ≤ 'f' then some (c.toNat - 'a'.toNat + 10)
  else if 'A' ≤ c ∧ c ≤ 'F' then some (c.toNat - 'A'.toNat + 10)
  else none

/-- Where in the text the next character stands. What has been read of a word or string is kept
backwards. -/
inductive Mode where
  | between (run : List Char)
  | quoted (pieces : List Piece)
  | escaped (pieces : List Piece)
  /-- Inside a `\u` escape, with that many hexadecimal digits to come. -/
  | hex (pieces : List Piece) (digits : Nat) (value : Nat)

def ofWord (run : List Char) : List Token := if run = [] then [] else [.word run.reverse]

def ofPieces (pieces : List Piece) : Token :=
  .text ((Piece.assemble pieces.reverse).map String.ofList)

def scan : Mode → List Char → List Token
  | .between run, [] => ofWord run
  | _, [] => [.bad]
  | .between run, c :: cs =>
    if isBlank c then ofWord run ++ scan (.between []) cs
    else if c = '"' then ofWord run ++ scan (.quoted []) cs
    else match punctuation? c with
      | some t => ofWord run ++ t :: scan (.between []) cs
      | none => scan (.between (c :: run)) cs
  | .quoted pieces, c :: cs =>
    if c = '"' then ofPieces pieces :: scan (.between []) cs
    else if c = '\\' then scan (.escaped pieces) cs
    else if c < ' ' then [.bad]
    else scan (.quoted (.char c :: pieces)) cs
  | .escaped pieces, c :: cs =>
    match escape? c with
    | some e => scan (.quoted (.char e :: pieces)) cs
    | none => if c = 'u' then scan (.hex pieces 4 0) cs else [.bad]
  | .hex pieces digits value, c :: cs =>
    match hexValue? c with
    | none => [.bad]
    | some d =>
      if digits ≤ 1 then scan (.quoted (.unit (value * 16 + d) :: pieces)) cs
      else scan (.hex pieces (digits - 1) (value * 16 + d)) cs

def ofText (text : String) : List Token := scan (.between []) text.toList

end Token

end Orchestration.Json
