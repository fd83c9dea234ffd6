import Orchestration.Json.Numeral
import Orchestration.Json.Token

/-!
# Reading JSON

The tokens of a text are put together one by one, with the arrays and objects that
are still open held on a stack. At the first token that does not fit, the open
arrays and objects are closed around `bad`.
-/

set_option autoImplicit false

namespace Orchestration.Json

/-- The value a text starts with, and whether the text ends with it. -/
structure Document where
  value : Json
  ends : Bool

/-- An open array or object, what it holds kept backwards; an object knows the name of its next
member. -/
inductive Opened where
  | arr (items : List Json)
  | obj (members : List (Option String × Json)) (name : Option String)

inductive Expected where
  /-- A value, or the end of an array just opened. -/
  | value (orClose : Bool)
  | name (orClose : Bool)
  | colon
  | separator

namespace Document

def ofWord (word : List Char) : Json :=
  if word = "null".toList then .null
  else if word = "true".toList then .bool true
  else if word = "false".toList then .bool false
  else if (Numeral.ofChars? word).isSome then .number word
  else .bad

def enclose (v : Json) : List Opened → Json
  | [] => v
  | .arr items :: outer => enclose (.arr (v :: items).reverse) outer
  | .obj members name :: outer => enclose (.obj ((name, v) :: members).reverse) outer

def broken (opened : List Opened) (expected : Expected) : Document :=
  match opened, expected with
  | .obj members _ :: outer, .name _ => ⟨enclose .bad (.obj members (some "") :: outer), true⟩
  | .obj members _ :: outer, .separator => ⟨enclose .bad (.obj members (some "") :: outer), true⟩
  | _, _ => ⟨enclose .bad opened, true⟩

/-- What is open after a value has been added to the innermost array or object; none if the value
stands alone. -/
def add? (v : Json) : List Opened → Option (List Opened)
  | [] => none
  | .arr items :: outer => some (.arr (v :: items) :: outer)
  | .obj members name :: outer => some (.obj ((name, v) :: members) name :: outer)

def build : List Opened → Expected → List Token → Document
  | opened, expected, [] => broken opened expected
  | opened, expected, token :: rest =>
    let finish (v : Json) (outer : List Opened) : Document :=
      match add? v outer with
      | some opened => build opened .separator rest
      | none => ⟨v, rest.isEmpty⟩
    match expected, token, opened with
    | .value _, .arrayOpen, _ => build (.arr [] :: opened) (.value true) rest
    | .value _, .objectOpen, _ => build (.obj [] none :: opened) (.name true) rest
    | .value _, .text t, _ => finish (.str t) opened
    | .value _, .word w, _ =>
      match ofWord w with
      | .bad => broken opened expected
      | v => finish v opened
    | .value true, .arrayClose, .arr items :: outer => finish (.arr items.reverse) outer
    | .name _, .text t, .obj members _ :: outer => build (.obj members t :: outer) .colon rest
    | .name true, .objectClose, .obj members _ :: outer => finish (.obj members.reverse) outer
    | .colon, .colon, _ => build opened (.value false) rest
    | .separator, .comma, .arr _ :: _ => build opened (.value false) rest
    | .separator, .comma, .obj _ _ :: _ => build opened (.name false) rest
    | .separator, .arrayClose, .arr items :: outer => finish (.arr items.reverse) outer
    | .separator, .objectClose, .obj members _ :: outer => finish (.obj members.reverse) outer
    | _, _, _ => broken opened expected

def ofText (text : String) : Document := build [] (.value false) (Token.ofText text)

end Document

end Orchestration.Json
