import MirAudit.Text.Describe

/-!
# Definitions and their identity

A definition (function, type, trait or impl) is identified by its crate and its path inside the
crate: `name`, `Trait::method`, or `<Type as Trait>::method` for a method of an impl.
-/

namespace MirAudit

/-- The identity of a definition. -/
structure DefId where
  crate : String
  path : String
deriving DecidableEq

namespace DefId

/-- The fully qualified symbol. -/
def symbol (d : DefId) : String :=
  d.crate ++ "::" ++ d.path

/-- What follows the last `::` of a path, or the whole path without one. -/
def lastSegment : List Char → List Char
  | [] => []
  | c :: rest =>
    if hasSeparator rest then lastSegment rest
    else
      match c, rest with
      | ':', ':' :: tail => tail
      | _, _ => c :: rest
where
  /-- Whether `::` occurs. -/
  hasSeparator : List Char → Bool
    | ':' :: ':' :: _ => true
    | _ :: rest => hasSeparator rest
    | [] => false

/-- The item's own name: the last segment of its path. -/
def name (d : DefId) : String :=
  String.ofList (lastSegment d.path.toList)

/-- The structural description. -/
def describe (d : DefId) : String :=
  Describe.record "DefId" [("crate", Describe.string d.crate), ("path", Describe.string d.path)]

end DefId

/-- What kind of item a definition is. -/
inductive ItemKind where
  | fn
  | type
  | trait
  | other
deriving DecidableEq

/-- The structural description of a kind. -/
def ItemKind.describe : ItemKind → String
  | .fn => Describe.member "ItemKind" "FN" 1
  | .type => Describe.member "ItemKind" "TYPE" 2
  | .trait => Describe.member "ItemKind" "TRAIT" 3
  | .other => Describe.member "ItemKind" "OTHER" 4

end MirAudit
