import MirAudit.Body.Printer
import MirAudit.Span

/-!
# Declarations

What a program declares: crates, functions with their generic bodies, structs, traits and impls,
and the items that list them. Two declarations are the same if they agree up to their spans, and
constants are compared as values.
-/

namespace MirAudit

/-- A crate; the local one has number 0. -/
structure Crate where
  id : Int
  name : String
  isLocal : Bool := false
deriving DecidableEq

/-- A named, located declaration of the local crate. -/
structure Item where
  defId : DefId
  name : String
  kind : ItemKind
  span : Span := {}
deriving DecidableEq

/-- A type parameter with the traits it must implement. -/
structure GenericParam where
  name : String
  bounds : List DefId := []
deriving DecidableEq

/-- A function. Functions of other crates and required trait methods have no body. A trait method
names its trait and has the implicit `Self` as first parameter. -/
structure FnDecl where
  defId : DefId
  generics : List GenericParam := []
  inputs : List Ty := []
  output : Ty := .unit
  body : Option Body := none
  traitDef : Option DefId := none
  isExtern : Bool := false
  span : Span := {}
deriving DecidableEq

/-- A struct with its type parameters. -/
structure StructDecl where
  defId : DefId
  params : List String := []
  span : Span := {}
deriving DecidableEq

/-- A trait with its method names, required and provided. -/
structure TraitDecl where
  defId : DefId
  methods : List String := []
  span : Span := {}
deriving DecidableEq

/-- An impl of a trait for a type, with the function that implements each method. -/
structure TraitImpl where
  defId : DefId
  traitDef : DefId
  selfTy : Ty
  methods : List (String × DefId) := []
  span : Span := {}
deriving DecidableEq

namespace FnDecl

/-- The names of the type parameters. -/
def paramNames (fn : FnDecl) : List String :=
  fn.generics.map GenericParam.name

/-- Whether the function has type parameters. -/
def isGeneric (fn : FnDecl) : Bool :=
  !fn.generics.isEmpty

end FnDecl

/-- The function that implements a method. -/
def TraitImpl.method? (i : TraitImpl) (name : String) : Option DefId :=
  i.methods.lookup name

/-! ## Sameness up to spans -/

/-- The item without its span. -/
def Item.unspanned (i : Item) : Item :=
  { i with span := {} }

/-- The function without its span, with canonical constants. -/
def FnDecl.unspanned (fn : FnDecl) : FnDecl :=
  { fn with span := {}, body := fn.body.map Body.canonical }

/-- The struct without its span. -/
def StructDecl.unspanned (d : StructDecl) : StructDecl :=
  { d with span := {} }

/-- The trait without its span. -/
def TraitDecl.unspanned (d : TraitDecl) : TraitDecl :=
  { d with span := {} }

/-- The impl without its span. -/
def TraitImpl.unspanned (i : TraitImpl) : TraitImpl :=
  { i with span := {} }

/-! ## Structural descriptions -/

/-- The structural description of a crate. -/
def Crate.describe (c : Crate) : String :=
  Describe.record "Crate"
    [("id", Describe.int c.id), ("name", Describe.string c.name),
     ("is_local", Describe.bool c.isLocal)]

/-- The structural description of an item. -/
def Item.describe (i : Item) : String :=
  Describe.record "CrateItem"
    [("def_id", i.defId.describe), ("name", Describe.string i.name),
     ("kind", i.kind.describe), ("span", i.span.describe)]

/-- The structural description of a type parameter. -/
def GenericParam.describe (p : GenericParam) : String :=
  Describe.record "GenericParam"
    [("name", Describe.string p.name), ("bounds", Describe.tuple (p.bounds.map DefId.describe))]

/-- The structural description of a function. -/
def FnDecl.describe (fn : FnDecl) : String :=
  Describe.record "FnDef"
    [("def_id", fn.defId.describe),
     ("generics", Describe.tuple (fn.generics.map GenericParam.describe)),
     ("inputs", Describe.tuple (fn.inputs.map Ty.describe)),
     ("output", fn.output.describe),
     ("body", Describe.option Body.describe fn.body),
     ("trait_def", Describe.option DefId.describe fn.traitDef),
     ("is_extern", Describe.bool fn.isExtern),
     ("span", fn.span.describe)]

/-- The structural description of a struct. -/
def StructDecl.describe (d : StructDecl) : String :=
  Describe.record "StructDecl"
    [("def_id", d.defId.describe), ("params", Describe.tuple (d.params.map Describe.string)),
     ("span", d.span.describe)]

/-- The structural description of a trait. -/
def TraitDecl.describe (d : TraitDecl) : String :=
  Describe.record "TraitDecl"
    [("def_id", d.defId.describe), ("methods", Describe.tuple (d.methods.map Describe.string)),
     ("span", d.span.describe)]

/-- The structural description of an impl. -/
def TraitImpl.describe (i : TraitImpl) : String :=
  Describe.record "TraitImpl"
    [("def_id", i.defId.describe), ("trait_def", i.traitDef.describe),
     ("self_ty", i.selfTy.describe),
     ("methods", Describe.tuple (i.methods.map fun method =>
        Describe.tuple [Describe.string method.1, method.2.describe])),
     ("span", i.span.describe)]

end MirAudit
