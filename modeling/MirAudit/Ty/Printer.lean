import MirAudit.Ty.Basic

/-!
# Printed types

`Ty.render` writes a type in the source syntax; a function item is written with its full symbol.
`Ty.describe` writes it as a structural description.
-/

namespace MirAudit.Ty

/-- Arguments in angle brackets; no brackets without arguments. -/
def renderArgs : List String → String
  | [] => ""
  | args => "<" ++ String.intercalate ", " args ++ ">"

/-- Members in parentheses; a single one is followed by a comma. -/
def renderTuple : List String → String
  | [elem] => "(" ++ elem ++ ",)"
  | elems => "(" ++ String.intercalate ", " elems ++ ")"

mutual
/-- The type in source syntax. -/
def render : Ty → String
  | .scalar name => name
  | .adt name args => name ++ renderArgs (renderAll args)
  | .ref pointee mutable => (if mutable then "&mut " else "&") ++ render pointee
  | .tuple elems => renderTuple (renderAll elems)
  | .param name => name
  | .fnDef callee args => "fndef " ++ callee.symbol ++ renderArgs (renderAll args)
  | .fnPtr inputs output =>
    "fn(" ++ String.intercalate ", " (renderAll inputs) ++ ") -> " ++ render output

/-- Each type in source syntax. -/
def renderAll : List Ty → List String
  | [] => []
  | t :: ts => render t :: renderAll ts
end

/-- Types are rendered one by one. -/
theorem renderAll_eq_map (ts : List Ty) : renderAll ts = ts.map render := by
  induction ts with
  | nil => rfl
  | cons t ts ih => simp [renderAll, ih]

mutual
/-- The structural description of a type. -/
def describe : Ty → String
  | .scalar name => Describe.record "ScalarTy" [("name", Describe.string name)]
  | .adt name args =>
    Describe.record "AdtTy"
      [("name", Describe.string name), ("args", Describe.tuple (describeAll args))]
  | .ref pointee mutable =>
    Describe.record "RefTy" [("pointee", describe pointee), ("mutable", Describe.bool mutable)]
  | .tuple elems => Describe.record "TupleTy" [("elems", Describe.tuple (describeAll elems))]
  | .param name => Describe.record "ParamTy" [("name", Describe.string name)]
  | .fnDef callee args =>
    Describe.record "FnDefTy"
      [("def_id", callee.describe), ("args", Describe.tuple (describeAll args))]
  | .fnPtr inputs output =>
    Describe.record "FnPtrTy"
      [("inputs", Describe.tuple (describeAll inputs)), ("output", describe output)]

/-- The structural descriptions of types. -/
def describeAll : List Ty → List String
  | [] => []
  | t :: ts => describe t :: describeAll ts
end

end MirAudit.Ty
