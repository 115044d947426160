import MirAudit.Source.LoadFault
import MirAudit.Source.Tree

/-!
# Names in scope

A scope knows the crates and the type names that are bound: the parameters of a function and `Self`.
A path that starts with the name of a crate is a definition of that crate, any other path is local.
A single name is a bound type, a scalar, or else a nominal type.
-/

namespace MirAudit.Source

/-- The names that paths and types may refer to. A later binding of a type name comes first. -/
structure Scope where
  localCrate : String
  crates : List String
  types : List (String × Ty) := []

namespace Scope

/-- The scope with a type name bound. -/
def bind (s : Scope) (name : String) (ty : Ty) : Scope :=
  { s with types := (name, ty) :: s.types }

/-- The type that a single name is bound to: a parameter or `Self`, or else a scalar. -/
def single? (s : Scope) (name : String) : Option Ty :=
  match s.types.lookup name with
  | some ty => some ty
  | none => if name ∈ Ty.scalarNames then some (.scalar name) else none

/-- The identity of a local definition. -/
def localDef (s : Scope) (path : String) : DefId :=
  ⟨s.localCrate, path⟩

/-- The definition that the segments of a path name. -/
def defOf (s : Scope) (segments : List String) : DefId :=
  match segments with
  | crate :: next :: rest =>
    if crate ∈ s.crates then ⟨crate, String.intercalate "::" (next :: rest)⟩
    else s.localDef (String.intercalate "::" segments)
  | _ => s.localDef (String.intercalate "::" segments)

end Scope

/-- The path of the impl of a trait for a type. -/
def implSegment (selfTy : Ty) (traitDef : DefId) : String :=
  "<" ++ selfTy.render ++ " as " ++ traitDef.path ++ ">"

mutual
/-- The type that a tree denotes. -/
def TypeTree.lower (s : Scope) : TypeTree → Load Ty
  | .unit => return .unit
  | .tuple elems => return .tuple (← lowerTypes s elems)
  | .ref mutable pointee => return .ref (← pointee.lower s) mutable
  | .fnPtr inputs output => do
    let inputs ← lowerTypes s inputs
    let output ← output.lower s
    return .fnPtr inputs output
  | .fnDef path args => do
    let segments ← lowerSegments s path
    let args ← lowerTypes s args
    return .fnDef (s.defOf segments) args
  | .never => return .scalar "!"
  | .named region path args => do
    let args ← lowerTypes s args
    let segments ← lowerSegments s path
    match segments with
    | [name] =>
      match s.single? name with
      | some ty =>
        if args.isEmpty then return ty
        else throw ((LoadFault.typeArguments name).within region)
      | none => return .adt name args
    | _ => return .adt (String.intercalate "::" segments) args

/-- The types that trees denote, in order. -/
def lowerTypes (s : Scope) : List TypeTree → Load (List Ty)
  | [] => return []
  | tree :: trees => do
    let ty ← tree.lower s
    let tys ← lowerTypes s trees
    return ty :: tys

/-- The text of a segment. -/
def SegmentTree.lower (s : Scope) : SegmentTree → Load String
  | .name name => return name
  | .qualified ty traitPath => do
    let ty ← ty.lower s
    let segments ← lowerSegments s traitPath
    return implSegment ty (s.defOf segments)

/-- The texts of segments, in order. -/
def lowerSegments (s : Scope) : List SegmentTree → Load (List String)
  | [] => return []
  | segment :: segments => do
    let text ← segment.lower s
    let texts ← lowerSegments s segments
    return text :: texts
end

/-- The definition that a path names. -/
def lowerDef (s : Scope) (path : PathTree) : Load DefId :=
  return s.defOf (← lowerSegments s path)

end MirAudit.Source
