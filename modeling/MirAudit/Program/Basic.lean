import MirAudit.Body.Subst
import MirAudit.Decl
import MirAudit.Fault
import MirAudit.Instance
import MirAudit.Table

/-!
# Programs

A program is filled by registrations and then queried. Local functions with a body become items;
extern functions and functions of other crates can only be called. A registration that fails may
have had a part of its effect: `addFn` registers a function before it looks at the entry point.
-/

namespace MirAudit

/-- An instance in the intern table. The ticket tells apart objects that are equal as instances. -/
structure Interned where
  inst : Instance
  ticket : Nat
deriving DecidableEq

/-- The instances resolved so far, under the definition and arguments they were asked with. -/
structure InternTable where
  entries : Table (DefId × List Ty) Interned := {}
  nextTicket : Nat := 0
deriving DecidableEq

/-- A program in memory. Without a local crate its items cannot be listed. -/
structure Program where
  crateName? : Option String
  externals : List Crate := []
  items : List Item := []
  fns : Table DefId FnDecl := {}
  structs : Table DefId StructDecl := {}
  traits : Table DefId TraitDecl := {}
  impls : Table DefId TraitImpl := {}
  implIndex : Table (DefId × Ty) TraitImpl := {}
  entry : Option Item := none
  interned : InternTable := {}
deriving DecidableEq

/-- Why a registration fails. -/
inductive RegistrationFault where
  | duplicateFn (fn : DefId)
  | externBody (fn : DefId)
  | duplicateEntry (fn : DefId)
  | foreignEntry (fn : DefId)
  | conflictingImpl (traitDef : DefId) (selfTy : Ty)
deriving DecidableEq

/-- The wording of a registration fault. -/
def RegistrationFault.message : RegistrationFault → String
  | .duplicateFn fn => "duplicate function definition `" ++ fn.symbol ++ "`"
  | .externBody fn => "extern function `" ++ fn.symbol ++ "` cannot have a body"
  | .duplicateEntry fn => "duplicate entry point `" ++ fn.symbol ++ "`"
  | .foreignEntry fn =>
    "entry point `" ++ fn.symbol ++ "` must be a local function with a body"
  | .conflictingImpl traitDef selfTy =>
    "conflicting implementations of `" ++ traitDef.symbol ++ "` for `" ++ selfTy.render ++ "`"

namespace Program

/-! ## Crates -/

/-- The local crate. -/
def localCrate? (p : Program) : Option Crate :=
  p.crateName?.map fun name => { id := 0, name, isLocal := true }

/-- What is said about a program whose items cannot be listed. -/
def noLocalCrate : String :=
  "program has no local crate; cannot enumerate local items"

/-- The local crate, or the setup fault that there is none. -/
def localCrate (p : Program) : Except Fault Crate :=
  match p.localCrate? with
  | some crate => .ok crate
  | none => .error (.setup noLocalCrate)

/-- The identity of a definition of the local crate. -/
def localDef (p : Program) (path : String) : Except Fault DefId :=
  p.localCrate.map fun crate => ⟨crate.name, path⟩

/-- The crate of a name: the local one first. -/
def findCrate (p : Program) (name : String) : Option Crate :=
  (p.localCrate?.toList ++ p.externals).find? fun crate => crate.name = name

/-- Registers an external crate, unless a crate of that name is known; the answer is the crate. -/
def addExternalCrate (p : Program) (name : String) : Crate × Program :=
  match p.findCrate name with
  | some known => (known, p)
  | none =>
    let crate : Crate := { id := p.externals.length + 1, name }
    (crate, { p with externals := p.externals ++ [crate] })

/-! ## Registration -/

/-- The program with one more item. -/
def addItem (p : Program) (item : Item) : Program :=
  { p with items := p.items ++ [item] }

/-- The item that lists a function. -/
def fnItem (fn : FnDecl) : Item :=
  { defId := fn.defId, name := fn.defId.symbol, kind := .fn, span := fn.span }

/-- Whether a function is an item: it belongs to the local crate and has a body. -/
def isItem (p : Program) (fn : FnDecl) : Bool :=
  p.crateName? = some fn.defId.crate && fn.body.isSome

/-- Registers a function, as the entry point if `entry` is set. -/
def addFn (p : Program) (fn : FnDecl) (entry : Bool) : Except RegistrationFault Unit × Program :=
  if p.fns.contains fn.defId then (.error (.duplicateFn fn.defId), p)
  else if fn.isExtern && fn.body.isSome then (.error (.externBody fn.defId), p)
  else
    let registered := { p with fns := p.fns.insert fn.defId fn }
    if p.isItem fn then
      let listed := registered.addItem (fnItem fn)
      if !entry then (.ok (), listed)
      else if p.entry.isSome then (.error (.duplicateEntry fn.defId), listed)
      else (.ok (), { listed with entry := some (fnItem fn) })
    else if entry then (.error (.foreignEntry fn.defId), registered)
    else (.ok (), registered)

/-- Registers a struct; a later one of the same identity replaces the declaration. -/
def addStruct (p : Program) (decl : StructDecl) : Program :=
  { p with structs := p.structs.insert decl.defId decl }.addItem
    { defId := decl.defId, name := decl.defId.symbol, kind := .type, span := decl.span }

/-- Registers a trait; a later one of the same identity replaces the declaration. -/
def addTrait (p : Program) (decl : TraitDecl) : Program :=
  { p with traits := p.traits.insert decl.defId decl }.addItem
    { defId := decl.defId, name := decl.defId.symbol, kind := .trait, span := decl.span }

/-- Registers an impl, unless the trait has one for the same type. -/
def addImpl (p : Program) (decl : TraitImpl) : Except RegistrationFault Unit × Program :=
  if p.implIndex.contains (decl.traitDef, decl.selfTy) then
    (.error (.conflictingImpl decl.traitDef decl.selfTy), p)
  else
    (.ok (),
      { p with
        impls := p.impls.insert decl.defId decl
        implIndex := p.implIndex.insert (decl.traitDef, decl.selfTy) decl }.addItem
        { defId := decl.defId, name := decl.defId.symbol, kind := .other, span := decl.span })

/-! ## Lookups -/

/-- The function of an identity. -/
def fnDecl (p : Program) (fn : DefId) : Option FnDecl :=
  p.fns.get? fn

/-- The struct of an identity. -/
def structDecl (p : Program) (decl : DefId) : Option StructDecl :=
  p.structs.get? decl

/-- The impl of a trait for a type. -/
def findImpl (p : Program) (traitDef : DefId) (selfTy : Ty) : Option TraitImpl :=
  p.implIndex.get? (traitDef, selfTy)

/-- A table entry, or the crash that the key is missing. -/
def require {ν : Type} (table : Table DefId ν) (key : DefId) : Except Fault ν :=
  match table.get? key with
  | some value => .ok value
  | none => .error (.crash (.missingKey key.describe))

/-- The items in order of registration. -/
def localItems (p : Program) : Except Fault (List Item) :=
  p.localCrate.map fun _ => p.items

/-- The generic body of a function item. -/
def bodyOfItem (p : Program) (item : Item) : Option Body :=
  if item.kind = .fn then (p.fnDecl item.defId).bind FnDecl.body else none

/-- The body of an instance: the generic body with the type arguments put in. A function that is
unknown, extern or without body has none. -/
def bodyOf (p : Program) (i : Instance) : Except Fault (Option Body) :=
  match p.fnDecl i.defId with
  | none => .ok none
  | some fn =>
    if fn.isExtern then .ok none
    else
      match fn.body with
      | none => .ok none
      | some body =>
        match Subst.of fn.paramNames i.args with
        | .error mismatch => .error (.crash (.arity mismatch))
        | .ok s => .ok (some (body.subst s))

end Program

end MirAudit
