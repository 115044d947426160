import MirAudit.Body.Callee
import MirAudit.Program.Basic

/-!
# Building programs in memory

Shorthand for bodies of common shapes (one that only returns, one that calls functions in sequence,
one that uses every kind of node) and for registering functions, traits and impls around them.
-/

namespace MirAudit

/-! ## Bodies -/

namespace Body

/-- A body that only returns. -/
def returning (output : Ty) (inputs : List Ty) : Body :=
  { blocks := [⟨[], .return⟩]
    locals := { ty := output } :: inputs.map fun ty => { ty }
    argCount := inputs.length }

/-- A body whose blocks call one callee each, in sequence, and whose last block returns. -/
def callChain (callees : List Operand) (extraLocals : List Ty) : Body :=
  { blocks := callees.mapIdx (fun i func => ⟨[], .call func [] 0 (some (i + 1))⟩)
      ++ [⟨[], .return⟩]
    locals := { ty := .unit } :: extraLocals.map fun ty => { ty } }

/-- A body that uses every kind of statement, right-hand side, operand and terminator. -/
def sample (callee : DefId) : Body :=
  let i32 := Ty.scalar "i32"
  let bool := Ty.scalar "bool"
  let u64 := Ty.scalar "u64"
  let pair := Ty.tuple [i32, bool]
  { blocks :=
      [⟨[.storageLive 2, .assign 2 (.binary "Lt" (.copy 1) (.const i32 (.int 10))),
          .assign 3 (.ref 1 false)],
        .switch (.copy 2) [(0, 2)] 1⟩,
       ⟨[.assign 4 (.aggregate pair [.copy 1, .copy 2]), .assign 5 (.cast (.copy 1) u64)],
        .call (.const (.fnDef callee []) .unit) [.move 1] 0 (some 3)⟩,
       ⟨[.nop], .assert (.copy 2) false 5⟩,
       ⟨[.storageDead 2], .drop 4 4⟩,
       ⟨[.assign 0 (.use (.copy 1))], .return⟩,
       ⟨[], .goto 3⟩,
       ⟨[], .unreachable⟩]
    locals :=
      [{ ty := i32 }, { ty := i32 }, { ty := bool, mutable := true }, { ty := .ref i32 false },
       { ty := pair }, { ty := u64 }, { ty := .fnPtr [i32] i32 }]
    argCount := 1 }

end Body

/-! ## Registrations -/

/-- Why building a program fails. -/
inductive BuildFault where
  | fault (fault : Fault)
  | registration (fault : RegistrationFault)

/-- A step of building a program. What was done before a failure stays done. -/
abbrev Build (α : Type) := ExceptT BuildFault (StateM Program) α

namespace Build

/-- A registration as a step. -/
def register (add : Program → Except RegistrationFault Unit × Program) : Build Unit :=
  ExceptT.mk fun p =>
    match add p with
    | (.ok (), p) => (.ok (), p)
    | (.error fault, p) => (.error (.registration fault), p)

/-- A lookup as a step. -/
def ask {α : Type} (f : Program → Except Fault α) : Build α :=
  ExceptT.mk fun p =>
    match f p with
    | .ok a => (.ok a, p)
    | .error fault => (.error (.fault fault), p)

/-- Registers a function. -/
def addFn (fn : FnDecl) (entry : Bool) : Build Unit :=
  register fun p => p.addFn fn entry

/-- Registers a local function with the signature that its body's slots give. -/
def defineFn (name : String) (body : Body) (generics : List GenericParam) (entry : Bool) :
    Build FnDecl := do
  let defId ← ask fun p => p.localDef name
  let output ← ask fun _ => body.returnTy.mapError Fault.crash
  let fn : FnDecl :=
    { defId, generics, inputs := body.argLocals.map LocalDecl.ty, output, body := some body }
  addFn fn entry
  return fn

/-- Registers an extern function, and its crate if that is new. -/
def defineExternFn (crate name : String) : Build FnDecl := do
  modify fun p => (p.addExternalCrate crate).2
  let fn : FnDecl := { defId := ⟨crate, name⟩, isExtern := true }
  addFn fn false
  return fn

/-- Registers a trait whose methods may have default bodies. -/
def defineTrait (name : String) (methods : Table String (Option Body)) : Build TraitDecl := do
  let traitDef ← ask fun p => p.localDef name
  methods.entries.forM fun (method, body) => do
    let defId ← ask fun p => p.localDef (name ++ "::" ++ method)
    addFn { defId, generics := [{ name := "Self" }], body, traitDef := some traitDef } false
  let decl : TraitDecl := { defId := traitDef, methods := methods.entries.map Prod.fst }
  modify fun p => p.addTrait decl
  return decl

/-- The path of an impl. -/
def implPath (traitPath : String) (selfTy : Ty) : String :=
  "<" ++ selfTy.render ++ " as " ++ traitPath ++ ">"

/-- Registers the functions of an impl, then the impl. -/
def defineImpl (traitName : String) (selfTy : Ty) (methods : Table String Body) :
    Build TraitImpl := do
  let path := implPath traitName selfTy
  let ids ← methods.entries.mapM fun (method, body) => do
    let fn ← defineFn (path ++ "::" ++ method) body [] false
    return (method, fn.defId)
  let defId ← ask fun p => p.localDef path
  let traitDef ← ask fun p => p.localDef traitName
  let decl : TraitImpl := { defId, traitDef, selfTy, methods := ids }
  register fun p => p.addImpl decl
  return decl

end Build

end MirAudit
