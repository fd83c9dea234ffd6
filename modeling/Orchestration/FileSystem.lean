/-!
# File systems

A file system given by its files, so that a command can be carried out without a
real one. A path is walked name by name, from the root if it begins with a slash and
from the working directory if not. Every name but the last must lead to a directory,
and so must the last if a slash follows it. A name has at most 255 bytes and a path at
most 4095.
-/

set_option autoImplicit false

namespace Orchestration

inductive FileError where
  | notFound
  | denied
  | notDirectory
  | isDirectory
  | nameTooLong
  | notText
  | other (text : String)
  deriving DecidableEq, Repr

namespace FileError

def message : FileError → String
  | .notFound => "No such file or directory (os error 2)"
  | .denied => "Permission denied (os error 13)"
  | .notDirectory => "Not a directory (os error 20)"
  | .isDirectory => "Is a directory (os error 21)"
  | .nameTooLong => "File name too long (os error 36)"
  | .notText => "stream did not contain valid UTF-8"
  | .other text => text

def ofCode? : Nat → Option FileError
  | 2 => some .notFound
  | 13 => some .denied
  | 20 => some .notDirectory
  | 21 => some .isDirectory
  | 36 => some .nameTooLong
  | _ => none

end FileError

/-- A file or directory, by the names on the way to it from the root. -/
abbrev Place := List String

structure FileSystem where
  files : List (Place × List UInt8)
  directories : List Place
  working : Place

namespace FileSystem

def maxName : Nat := 255

def maxPath : Nat := 4095

def contents? (fs : FileSystem) (p : Place) : Option (List UInt8) :=
  (fs.files.find? (·.1 = p)).map Prod.snd

/-- A place is a directory if it is a given one, or if a given directory or file lies below it. -/
def isDirectory (fs : FileSystem) (p : Place) : Bool :=
  (fs.working :: fs.directories).any (p.isPrefixOf ·) ||
    fs.files.any fun f => p.isPrefixOf f.1 && p ≠ f.1

def enter (fs : FileSystem) (p : Place) (name : String) : Except FileError Place :=
  if !fs.isDirectory p then .error .notDirectory
  else if name = "" ∨ name = "." then .ok p
  else if name = ".." then .ok p.dropLast
  else if maxName < name.utf8ByteSize then .error .nameTooLong
  else
    let q := p ++ [name]
    if fs.isDirectory q || (fs.contents? q).isSome then .ok q else .error .notFound

def walk (fs : FileSystem) : List String → Place → Except FileError Place
  | [], p => .ok p
  | name :: rest, p => fs.enter p name >>= fs.walk rest

def find (fs : FileSystem) (path : String) : Except FileError Place :=
  if path = "" then .error .notFound
  else if maxPath < path.utf8ByteSize then .error .nameTooLong
  else fs.walk (path.splitOn "/") (if path.startsWith "/" then [] else fs.working)

def readText (fs : FileSystem) (path : String) : Except FileError String := do
  let p ← fs.find path
  match fs.contents? p with
  | none => .error .isDirectory
  | some bytes =>
    match String.fromUTF8? ⟨bytes.toArray⟩ with
    | some text => .ok text
    | none => .error .notText

end FileSystem

end Orchestration
