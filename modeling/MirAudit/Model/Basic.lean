import MirAudit.Program.Resolution

/-!
# Models

A model answers the queries of an audit. Its answers may depend on a state that queries change, and
every query may fail. The state survives a failure. `Program.model` answers from a program, where
resolution fills the intern table.
-/

namespace MirAudit

/-- A query on a model with state `σ`. -/
abbrev Query (σ α : Type) := ExceptT Fault (StateM σ) α

/-- The queries that an audit makes. -/
structure Model (σ : Type) where
  /-- The designated start function. -/
  entryFn : Query σ (Option Item)
  /-- The local items in declaration order. -/
  localItems : Query σ (List Item)
  /-- The instance of a function item without type parameters. -/
  instanceOf : Item → Query σ (Option Instance)
  /-- The generic body of an item. -/
  bodyOfItem : Item → Query σ (Option Body)
  /-- The body of an instance; an opaque function has none. -/
  bodyOf : Instance → Query σ (Option Body)
  /-- The instance of a function for type arguments. -/
  resolve : DefId → List Ty → Query σ Instance
  localCrate : Query σ Crate
  externalCrates : Query σ (List Crate)
  findCrate : String → Query σ (Option Crate)
  traitDecls : Query σ (List TraitDecl)
  traitDecl : DefId → Query σ TraitDecl
  traitImpls : Query σ (List TraitImpl)
  traitImpl : DefId → Query σ TraitImpl

namespace Query

variable {σ α : Type}

/-- A query that reads the state. -/
def reads (f : σ → Except Fault α) : Query σ α :=
  ExceptT.mk fun s => (f s, s)

/-- A query that reads and changes the state. -/
def steps (f : σ → Except Fault α × σ) : Query σ α :=
  ExceptT.mk fun s => f s

/-- A query that only fails or answers. -/
def ofExcept (result : Except Fault α) : Query σ α :=
  ExceptT.mk fun s => (result, s)

/-- The outcome of a query and the state it leaves. -/
def outcome (q : Query σ α) : StateM σ (Except Fault α) :=
  q.run

end Query

/-- The model that answers from a program. -/
def Program.model : Model Program where
  entryFn := .reads fun p => .ok p.entry
  localItems := .reads Program.localItems
  instanceOf item := .steps fun p => p.instanceOf item
  bodyOfItem item := .reads fun p => .ok (p.bodyOfItem item)
  bodyOf i := .reads fun p => p.bodyOf i
  resolve fn args := .steps fun p => p.resolve fn args
  localCrate := .reads Program.localCrate
  externalCrates := .reads fun p => .ok p.externals
  findCrate name := .reads fun p => .ok (p.findCrate name)
  traitDecls := .reads fun p => .ok p.traits.values
  traitDecl decl := .reads fun p => Program.require p.traits decl
  traitImpls := .reads fun p => .ok p.impls.values
  traitImpl decl := .reads fun p => Program.require p.impls decl

end MirAudit
