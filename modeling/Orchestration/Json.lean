/-!
# JSON values

The tree of a JSON text. Numbers keep their literal, since its reading depends on
what is asked for. A text that breaks off or goes wrong still has a tree: `bad`
stands where reading fails, and nothing follows it.
-/

set_option autoImplicit false

namespace Orchestration

inductive Json where
  | null
  | bool (b : Bool)
  | number (literal : List Char)
  /-- A string; it has no text if one of its escapes is half a surrogate pair without its other
  half. -/
  | str (text : Option String)
  | arr (items : List Json)
  | obj (members : List (Option String × Json))
  | bad
  deriving Inhabited

namespace Json

def text (s : String) : Json := .str (some s)

def nat (n : Nat) : Json := .number (Nat.toDigits 10 n)

def int (n : Int) : Json := .number (toString n).toList

def record (members : List (String × Json)) : Json := .obj (members.map fun m => (some m.1, m.2))

def case (name : String) (content : Json) : Json := record [(name, content)]

mutual

def complete : Json → Bool
  | .arr items => allComplete items
  | .obj members => membersComplete members
  | .bad => false
  | _ => true

def allComplete : List Json → Bool
  | [] => true
  | j :: rest => j.complete && allComplete rest

def membersComplete : List (Option String × Json) → Bool
  | [] => true
  | (_, j) :: rest => j.complete && membersComplete rest

end

mutual

def nesting : Json → Nat
  | .arr items => itemsNesting items + 1
  | .obj members => membersNesting members + 1
  | _ => 0

def itemsNesting : List Json → Nat
  | [] => 0
  | j :: rest => max j.nesting (itemsNesting rest)

def membersNesting : List (Option String × Json) → Nat
  | [] => 0
  | (_, j) :: rest => max j.nesting (membersNesting rest)

end

end Json

end Orchestration
