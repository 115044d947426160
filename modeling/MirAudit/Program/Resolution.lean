import MirAudit.Program.Basic

/-!
# Resolution

Resolution turns a function and concrete type arguments into an instance. The number of arguments
must be that of the parameters, no argument may hold a parameter, and every bound must be met by an
impl. A trait method goes to the impl for its first argument, or else to the trait's own body.
Resolved instances are interned, both under what was asked and under what was found.
-/

namespace MirAudit

/-- Why a function cannot be instantiated. -/
inductive ResolutionFault where
  | unknownFn (fn : DefId)
  | arity (fn : DefId) (expected found : Nat)
  | tooGeneric (fn : DefId) (arg : Ty)
  | unmetBound (fn : DefId) (arg : Ty) (bound : DefId) (param : String)
  /-- An impl names a function that does not exist. -/
  | missingFn (impl target : DefId)
  | missingImpl (fn : DefId) (selfTy : Ty)
  /-- A trait method has no parameter that `Self` could stand for. -/
  | noSelf
deriving DecidableEq

namespace ResolutionFault

/-- The wording of a resolution fault. -/
def message : ResolutionFault → String
  | .unknownFn fn => "unknown function definition `" ++ fn.symbol ++ "`"
  | .arity fn expected found =>
    "cannot resolve `" ++ fn.symbol ++ "`: expected " ++ toString expected
      ++ " type argument(s), got " ++ toString found
  | .tooGeneric fn arg =>
    "cannot resolve `" ++ fn.symbol ++ "`: type argument `" ++ arg.render ++ "` is too generic"
  | .unmetBound fn arg bound param =>
    "cannot resolve `" ++ fn.symbol ++ "`: `" ++ arg.render ++ "` does not implement `"
      ++ bound.symbol ++ "` (required by `" ++ param ++ "`)"
  | .missingFn impl target =>
    "impl `" ++ impl.symbol ++ "` names missing function `" ++ target.symbol ++ "`"
  | .missingImpl fn selfTy =>
    "missing implementation of `" ++ fn.symbol ++ "` for `" ++ selfTy.render ++ "`"
  | .noSelf => Crash.outOfRange.text

/-- A resolution fault as a finding; a method without `Self` is a crash. -/
def toFault : ResolutionFault → Fault
  | .noSelf => .crash .outOfRange
  | fault => .check { kind := .resolution, message := fault.message }

end ResolutionFault

/-- The lookups that resolution needs. -/
structure Environment where
  fnDecl : DefId → Option FnDecl
  findImpl : DefId → Ty → Option TraitImpl

namespace Environment

/-- The number of arguments is that of the parameters. -/
def checkArity (fn : FnDecl) (args : List Ty) : Except ResolutionFault Unit :=
  if args.length = fn.generics.length then .ok ()
  else .error (.arity fn.defId fn.generics.length args.length)

/-- No argument holds a parameter. -/
def checkConcrete (fn : DefId) (args : List Ty) : Except ResolutionFault Unit :=
  match args.find? Ty.hasParam with
  | none => .ok ()
  | some arg => .error (.tooGeneric fn arg)

variable (env : Environment)

/-- Every bound of every parameter is met by an impl for its argument. -/
def checkBounds (fn : FnDecl) (args : List Ty) : Except ResolutionFault Unit :=
  let demands := (fn.generics.zip args).flatMap fun (param, arg) =>
    param.bounds.map fun bound => (param.name, bound, arg)
  match demands.find? fun (_, bound, arg) => (env.findImpl bound arg).isNone with
  | none => .ok ()
  | some (param, bound, arg) => .error (.unmetBound fn.defId arg bound param)

/-- The function that an impl names for a method, instantiated with the arguments behind `Self`. -/
def resolveInImpl (impl : TraitImpl) (target : DefId) (rest : List Ty) :
    Except ResolutionFault Instance := do
  match env.fnDecl target with
  | none => throw (.missingFn impl.defId target)
  | some fn =>
    checkArity fn rest
    env.checkBounds fn rest
    return ⟨target, rest⟩

/-- The function that implements a method for a type, with its impl. -/
def implMethod? (traitDef : DefId) (selfTy : Ty) (method : String) :
    Option (TraitImpl × DefId) := do
  let impl ← env.findImpl traitDef selfTy
  let target ← impl.method? method
  return (impl, target)

/-- Dispatches a trait method on its first argument. -/
def dispatch (fn : FnDecl) (traitDef : DefId) : List Ty → Except ResolutionFault Instance
  | [] => .error .noSelf
  | selfTy :: rest =>
    match env.implMethod? traitDef selfTy fn.defId.name with
    | some (impl, target) => env.resolveInImpl impl target rest
    | none =>
      if fn.body.isSome then .ok ⟨fn.defId, selfTy :: rest⟩
      else .error (.missingImpl fn.defId selfTy)

/-- The instance of a function for the given arguments. -/
def resolve (fn : DefId) (args : List Ty) : Except ResolutionFault Instance := do
  match env.fnDecl fn with
  | none => throw (.unknownFn fn)
  | some decl =>
    checkArity decl args
    checkConcrete fn args
    env.checkBounds decl args
    match decl.traitDef with
    | none => return ⟨fn, args⟩
    | some traitDef => env.dispatch decl traitDef args

end Environment

/-! ## Interning -/

namespace InternTable

/-- The entry for what was asked. -/
def get? (t : InternTable) (fn : DefId) (args : List Ty) : Option Interned :=
  t.entries.get? (fn, args)

/-- Enters a resolved instance under what was asked. An instance that has an entry of its own is
shared; a new one is also entered under itself. -/
def intern (t : InternTable) (fn : DefId) (args : List Ty) (resolved : Instance) :
    Interned × InternTable :=
  match t.get? resolved.defId resolved.args with
  | some known => (known, { t with entries := t.entries.insert (fn, args) known })
  | none =>
    let fresh : Interned := ⟨resolved, t.nextTicket⟩
    (fresh,
      { entries := (t.entries.insert (resolved.defId, resolved.args) fresh).insert (fn, args) fresh
        nextTicket := t.nextTicket + 1 })

/-- The number of distinct instances. -/
def count (t : InternTable) : Nat :=
  (t.entries.values.map Interned.inst).eraseDups.length

end InternTable

namespace Program

/-- The lookups of the program. -/
def environment (p : Program) : Environment :=
  ⟨p.fnDecl, p.findImpl⟩

/-- Resolves a function through the intern table. A failure is not remembered. -/
def intern (p : Program) (fn : DefId) (args : List Ty) :
    Except ResolutionFault Interned × Program :=
  match p.interned.get? fn args with
  | some known => (.ok known, p)
  | none =>
    match p.environment.resolve fn args with
    | .error fault => (.error fault, p)
    | .ok resolved =>
      let (entry, table) := p.interned.intern fn args resolved
      (.ok entry, { p with interned := table })

/-- Resolves a function to an instance. -/
def resolve (p : Program) (fn : DefId) (args : List Ty) : Except Fault Instance × Program :=
  match p.intern fn args with
  | (.ok entry, p) => (.ok entry.inst, p)
  | (.error fault, p) => (.error fault.toFault, p)

/-- The instance of a function item without type parameters; other items have none. -/
def instanceOf (p : Program) (item : Item) : Except Fault (Option Instance) × Program :=
  if item.kind ≠ .fn then (.ok none, p)
  else
    match p.fnDecl item.defId with
    | none => (.ok none, p)
    | some fn =>
      if fn.isGeneric then (.ok none, p)
      else
        match p.resolve item.defId [] with
        | (.ok i, p) => (.ok (some i), p)
        | (.error fault, p) => (.error fault, p)

end Program

end MirAudit
