import Orchestration.Json

/-!
# Printing JSON

Compact text has no blanks. Pretty text gives every item and member a line of its
own, indented by two blanks for each array or object around it; an empty array or
object stays on its line. In strings, quotes, backslashes and control characters
are escaped.
-/

set_option autoImplicit false

namespace Orchestration.Json

def escapeChar (c : Char) : List Char :=
  match c with
  | '"' => ['\\', '"']
  | '\\' => ['\\', '\\']
  | '\x08' => ['\\', 'b']
  | '\t' => ['\\', 't']
  | '\n' => ['\\', 'n']
  | '\x0c' => ['\\', 'f']
  | '\r' => ['\\', 'r']
  | c =>
    if c < ' ' then ['\\', 'u', '0', '0', Nat.digitChar (c.toNat / 16), Nat.digitChar (c.toNat % 16)]
    else [c]

def quote (text : Option String) : List Char :=
  '"' :: ((text.getD "").toList.flatMap escapeChar ++ ['"'])

def atom : Json → List Char
  | .bool b => (if b then "true" else "false").toList
  | .number literal => literal
  | .str t => quote t
  | _ => "null".toList

mutual

def compactChars : Json → List Char
  | .arr items => '[' :: (compactItems items ++ [']'])
  | .obj members => '{' :: (compactMembers members ++ ['}'])
  | j => j.atom

def compactItems : List Json → List Char
  | [] => []
  | [j] => j.compactChars
  | j :: rest => j.compactChars ++ ',' :: compactItems rest

def compactMembers : List (Option String × Json) → List Char
  | [] => []
  | [(name, j)] => quote name ++ ':' :: j.compactChars
  | (name, j) :: rest => quote name ++ ':' :: (j.compactChars ++ ',' :: compactMembers rest)

end

def newLine (depth : Nat) : List Char := '\n' :: List.replicate (2 * depth) ' '

mutual

def prettyChars (depth : Nat) : Json → List Char
  | .arr [] => ['[', ']']
  | .arr (j :: rest) =>
    '[' :: (newLine (depth + 1) ++ j.prettyChars (depth + 1) ++ prettyItems (depth + 1) rest ++
      newLine depth ++ [']'])
  | .obj [] => ['{', '}']
  | .obj ((name, j) :: rest) =>
    '{' :: (newLine (depth + 1) ++ quote name ++ ':' :: ' ' :: j.prettyChars (depth + 1) ++
      prettyMembers (depth + 1) rest ++ newLine depth ++ ['}'])
  | j => j.atom

def prettyItems (depth : Nat) : List Json → List Char
  | [] => []
  | j :: rest => ',' :: (newLine depth ++ j.prettyChars depth ++ prettyItems depth rest)

def prettyMembers (depth : Nat) : List (Option String × Json) → List Char
  | [] => []
  | (name, j) :: rest =>
    ',' :: (newLine depth ++ quote name ++ ':' :: ' ' :: j.prettyChars depth ++
      prettyMembers depth rest)

end

def compact (j : Json) : String := String.ofList j.compactChars

def pretty (j : Json) : String := String.ofList (j.prettyChars 0)

end Orchestration.Json
