import MirAudit.Source.Bodies
import MirAudit.Source.Lexer
import MirAudit.Source.Syntax

/-!
# Loading programs

A source text becomes a program in two stages: its tokens are read as items, and the items are
registered in order. Syntax faults come first. The crate declaration and the names of the external
crates are known before any path is resolved.
-/

namespace MirAudit.Source

/-- The name of the local crate of a text that declares none. -/
def defaultCrate : String :=
  "main"

/-! ## Signatures -/

/-- A type parameter with its bounds resolved. -/
def ParamTree.lower (scope : Scope) (tree : ParamTree) : Load GenericParam := do
  let bounds ← tree.bounds.mapM (lowerDef scope)
  return { name := tree.name.string, bounds }

/-- The first parameter whose name occurred before it. -/
def duplicateParam? : (seen : List String) → List (Spanned ParamTree) → Option LoadError
  | _, [] => none
  | seen, tree :: trees =>
    let name := tree.value.name.string
    if name ∈ seen then some ((LoadFault.duplicateParam name).within tree.region)
    else duplicateParam? (name :: seen) trees

/-- The signature that a tree denotes, and the scope that its body sees. Bounds are resolved in the
outer scope. -/
def SignatureTree.lower (outer : Scope) (tree : SignatureTree) : Load (Signature × Scope) := do
  let generics ← tree.generics.mapM fun param => param.value.lower outer
  if let some fault := duplicateParam? [] tree.generics then throw fault
  let scope := generics.foldl (fun s param => s.bind param.name (.param param.name)) outer
  let inputs ← lowerTypes scope tree.inputs
  let output ← match tree.output with
    | none => pure Ty.unit
    | some ty => ty.lower scope
  return ({ name := tree.name.string, generics, inputs, output }, scope)

/-! ## Registration -/

/-- What the items of a text share. -/
structure Loader where
  file : Option String
  scope : Scope

/-- A step of loading: it extends the program or is rejected. -/
abbrev LoadStep (α : Type) := StateT Program (Except LoadError) α

/-- A registration whose fault concerns a region. -/
def register (region : Region) (add : Program → Except RegistrationFault Unit × Program) :
    LoadStep Unit := do
  match add (← get) with
  | (.ok (), p) => set p
  | (.error fault, _) => throw ((LoadFault.registration fault).within region)

/-- The function that a signature declares. -/
def Signature.toFn (sig : Signature) (defId : DefId) : FnDecl :=
  { defId, generics := sig.generics, inputs := sig.inputs, output := sig.output }

/-- The name of a method as the definition under a path. -/
def methodPath (owner method : String) : String :=
  owner ++ "::" ++ method

variable (l : Loader)

/-- Registers the functions of an external crate. -/
def loadExternSignature (crate : String) (tree : Spanned SignatureTree) : LoadStep Unit := do
  let (sig, _) ← tree.value.lower l.scope
  let fn := { sig.toFn ⟨crate, sig.name⟩ with isExtern := true, span := tree.region.span l.file }
  register tree.region fun p => p.addFn fn false

/-- Registers a foreign function of the local crate. -/
def loadExternFn (region : Region) (tree : SignatureTree) : LoadStep Unit := do
  let (sig, _) ← tree.lower l.scope
  let fn :=
    { sig.toFn (l.scope.localDef sig.name) with isExtern := true, span := region.span l.file }
  register region fun p => p.addFn fn false

/-- Registers a function with a body. -/
def loadFn (region : Region) (entry : Bool) (signature : SignatureTree)
    (body : Spanned BodyTree) : LoadStep Unit := do
  let (sig, scope) ← signature.lower l.scope
  let body ← BodyTree.lower scope sig body
  let fn :=
    { sig.toFn (l.scope.localDef sig.name) with body := some body, span := region.span l.file }
  register region fun p => p.addFn fn entry

/-- Registers a method of a trait, and gives its name. The implicit `Self` is its first
parameter. -/
def loadTraitMethod (traitDef : DefId) (tree : Spanned MethodTree) : LoadStep String := do
  let (sig, scope) ← tree.value.signature.lower (l.scope.bind "Self" (.param "Self"))
  let body ← match tree.value.body with
    | none => pure none
    | some body => some <$> (BodyTree.lower scope sig body : Load Body)
  let fn :=
    { sig.toFn (l.scope.localDef (methodPath traitDef.path sig.name)) with
      generics := { name := "Self" } :: sig.generics
      body
      traitDef := some traitDef
      span := tree.region.span l.file }
  register tree.region fun p => p.addFn fn false
  return sig.name

/-- Registers a trait with its methods. -/
def loadTrait (region : Region) (name : Token) (methods : List (Spanned MethodTree)) :
    LoadStep Unit := do
  let traitDef := l.scope.localDef name.string
  let methods ← methods.mapM (loadTraitMethod l traitDef)
  modify fun p => p.addTrait { defId := traitDef, methods, span := region.span l.file }

/-- Registers a method of an impl under the path of the impl, and gives its name and identity. -/
def loadImplMethod (path : String) (selfTy : Ty) (tree : Spanned MethodTree) :
    LoadStep (String × DefId) := do
  let (sig, scope) ← tree.value.signature.lower (l.scope.bind "Self" selfTy)
  let body ← match tree.value.body with
    | none => pure none
    | some body => some <$> (BodyTree.lower scope sig body : Load Body)
  let defId := l.scope.localDef (methodPath path sig.name)
  let fn := { sig.toFn defId with body, span := tree.region.span l.file }
  register tree.region fun p => p.addFn fn false
  return (sig.name, defId)

/-- Registers an impl behind its methods. -/
def loadImpl (region : Region) (traitPath : PathTree) (selfTy : TypeTree)
    (methods : List (Spanned MethodTree)) : LoadStep Unit := do
  let traitDef ← lowerDef l.scope traitPath
  let selfTy ← selfTy.lower l.scope
  let path := implSegment selfTy traitDef
  let methods ← methods.mapM (loadImplMethod l path selfTy)
  let decl : TraitImpl :=
    { defId := l.scope.localDef path, traitDef, selfTy, methods, span := region.span l.file }
  register region fun p => p.addImpl decl

/-- Registers an item. -/
def loadItem (tree : Spanned ItemTree) : LoadStep Unit :=
  match tree.value with
  | .crate _ => pure ()
  | .externCrate name signatures => signatures.forM (loadExternSignature l name.string)
  | .externFn signature => loadExternFn l tree.region signature
  | .struct name params =>
    modify fun p => p.addStruct
      { defId := l.scope.localDef name.string, params := params.map Token.string,
        span := tree.region.span l.file }
  | .trait name methods => loadTrait l tree.region name methods
  | .impl path selfTy methods => loadImpl l tree.region path selfTy methods
  | .fn entry signature body => loadFn l tree.region entry signature body

/-! ## Whole texts -/

/-- The name that a text declares for its crate, or the second declaration. -/
def declaredCrate : Option String → List (Spanned ItemTree) → Load (Option String)
  | known, [] => return known
  | known, tree :: trees =>
    match tree.value with
    | .crate name =>
      if known.isSome then throw (LoadFault.duplicateCrate.within tree.region)
      else declaredCrate (some name.string) trees
    | _ => declaredCrate known trees

/-- Registers the external crates of a text. -/
def loadCrates (crate : String) : List (Spanned ItemTree) → LoadStep Unit
  | [] => pure ()
  | tree :: trees =>
    match tree.value with
    | .externCrate name _ =>
      if name.string = crate then
        throw ((LoadFault.shadowedCrate name.string).within tree.region)
      else do
        modify fun p => (p.addExternalCrate name.string).2
        loadCrates crate trees
    | _ => loadCrates crate trees

/-- The program of some items. -/
def loadItems (file : Option String) (items : List (Spanned ItemTree)) : Load Program := do
  let crate := (← declaredCrate none items).getD defaultCrate
  let ((), p) ← (loadCrates crate items).run { crateName? := some crate }
  let crates := crate :: p.externals.map Crate.name
  let ((), p) ← (items.forM (loadItem ⟨file, ⟨crate, crates, []⟩⟩)).run p
  return p

/-- The fault of tokens that cannot go on at `rest`: the next token, or else the end of the tokens.
The end of the text counts as the place of the last token. -/
def syntaxFault (lexed : Lexed) : (rest : List Token) → Located
  | tok :: _ => (LoadFault.unexpectedToken tok).startingAt tok.start
  | [] =>
    match lexed.ending with
    | .badChar c place => (LoadFault.unexpectedChar c).startingAt place
    | .endOfText =>
      LoadFault.unexpectedEnd.startingAt ((lexed.tokens.getLast?.map Token.start).getD {})

/-- The items of a text. A text that splits only up to some character is rejected there, unless its
syntax breaks off before. -/
def readText (text : List Char) : Except Located (List (Spanned ItemTree)) :=
  let lexed := Lexed.ofText text
  match Syntax.readItems lexed.tokens with
  | .error rest => .error (syntaxFault lexed rest)
  | .ok items =>
    match lexed.ending with
    | .endOfText => .ok items
    | .badChar _ _ => .error (syntaxFault lexed [])

/-- The program of a text. -/
def loadText (file : Option String) (text : List Char) : Load Program := do
  loadItems file (← (readText text).mapError .located)

end MirAudit.Source
