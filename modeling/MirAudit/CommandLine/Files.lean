import MirAudit.Table

/-!
# Files

A path is a list of components, written without empty components and single dots. A finite set of
files stands for a working directory: a path is followed component by component, and either leads to
a file or fails like on a file system.
-/

namespace MirAudit.CommandLine

/-- The pieces of a text between slashes. -/
def splitSlashes : List Char → List (List Char)
  | [] => [[]]
  | '/' :: rest => [] :: splitSlashes rest
  | c :: rest =>
    match splitSlashes rest with
    | piece :: pieces => (c :: piece) :: pieces
    | [] => [[c]]

/-- A path: what it starts with, and its components. -/
structure Path where
  root : String
  components : List String
deriving DecidableEq

namespace Path

/-- The root of a written path: exactly two leading slashes are kept apart from one. -/
def rootOf : List Char → String
  | '/' :: '/' :: '/' :: _ => "/"
  | '/' :: '/' :: _ => "//"
  | '/' :: _ => "/"
  | _ => ""

/-- The path that a text denotes. -/
def ofString (s : String) : Path :=
  let pieces := (splitSlashes s.toList).map String.ofList
  ⟨rootOf s.toList, pieces.filter fun piece => piece ≠ "" && piece ≠ "."⟩

/-- The written form of a path; the working directory itself is a dot. -/
def render (p : Path) : String :=
  if p.root = "" && p.components.isEmpty then "."
  else p.root ++ String.intercalate "/" p.components

/-- Whether a path holds the character that ends the names of a file system. -/
def holdsTerminator (p : Path) : Bool :=
  p.components.any fun name => name.toList.contains '\x00'

end Path

/-- Why a file cannot be read. -/
inductive ReadFault where
  | notFound
  | notDirectory
  | isDirectory
  | nameTooLong
  | notPermitted
  /-- A fault of the system, in its own words. -/
  | other (message : String)
deriving DecidableEq

/-- The wording of a read fault. -/
def ReadFault.message : ReadFault → String
  | .notFound => "No such file or directory"
  | .notDirectory => "Not a directory"
  | .isDirectory => "Is a directory"
  | .nameTooLong => "File name too long"
  | .notPermitted => "Permission denied"
  | .other message => message

/-- Files by the components of their paths in the working directory. -/
abbrev Files := List (List String × String)

namespace Files

/-- The files under the given names. -/
def ofNames (entries : List (String × String)) : Files :=
  entries.map fun (name, text) => ((Path.ofString name).components, text)

/-- Whether some file lies below a directory; the working directory always exists. -/
def hasDirectory (files : Files) (dir : List String) : Bool :=
  dir.isEmpty || files.any fun (path, _) => dir.isPrefixOf path && dir.length < path.length

/-- The longest name of a component, in bytes. -/
def nameLimit : Nat :=
  255

/-- How following components fails outside the working directory, where there are no files and
directories lead upwards only. -/
def outsideFault (names : List String) : ReadFault :=
  match names.dropWhile (· = "..") with
  | [] => .isDirectory
  | name :: _ => if nameLimit < name.utf8ByteSize then .nameTooLong else .notFound

/-- Follows components from the directory `dir`. -/
def follow (files : Files) : (dir : List String) → List String → Except ReadFault String
  | _, [] => .error .isDirectory
  | dir, ".." :: rest =>
    if dir.isEmpty then .error (outsideFault rest) else follow files dir.dropLast rest
  | dir, name :: rest =>
    let path := dir ++ [name]
    if nameLimit < name.utf8ByteSize then .error .nameTooLong
    else
      match files.lookup path with
      | some text => if rest.isEmpty then .ok text else .error .notDirectory
      | none => if files.hasDirectory path then follow files path rest else .error .notFound

/-- The length, in bytes, from which a written path is refused. -/
def pathLimit : Nat :=
  4096

/-- The text of a file. -/
def read (files : Files) (path : Path) : Except ReadFault String :=
  if pathLimit ≤ path.render.utf8ByteSize then .error .nameTooLong
  else if path.root = "" then files.follow [] path.components
  else .error (outsideFault path.components)

end Files

end MirAudit.CommandLine
