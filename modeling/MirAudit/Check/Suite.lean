import MirAudit.Check.Runner
import MirAudit.Check.Snapshot

/-!
# The audit of a model

The suite asks a model everything that should be coherent: the entry point is a local item, every
local body can be walked, crates are found by their names, every reachable call can be followed, and
a walk of every reachable body reproduces it. The roots of reachability are found before any check
runs; a fault there ends the audit.
-/

namespace MirAudit

/-- A check result as part of a query. -/
def Query.ofCheck {σ α : Type} (result : Except CheckFault α) : Query σ α :=
  .ofExcept (liftFault result)

/-- Walks a body to see whether that is possible. -/
def Query.walkBody {σ : Type} (body : Body) : Query σ Unit :=
  match body.walk.complete with
  | .ok _ => pure ()
  | .error crash => throw (.crash crash)

namespace Model

variable {σ : Type} (m : Model σ)

/-! ## Roots -/

/-- The instance of the entry point, if there is one; an entry point without instance is a setup
fault. -/
def entryRoot : Query σ (List Instance) := do
  match ← m.entryFn with
  | none => return []
  | some entry =>
    if entry.kind ≠ .fn then
      throw (.setup ("entry point `" ++ entry.name ++ "` is not a function"))
    match ← m.instanceOf entry with
    | none => throw (.setup ("entry point `" ++ entry.name ++ "` cannot be instantiated"))
    | some root => return [root]

/-- Adds the instances of items to the roots, each instance once. -/
def itemRoots : List Item → List Instance → Query σ (List Instance)
  | [], roots => pure roots
  | item :: items, roots =>
    if item.kind ≠ .fn then itemRoots items roots
    else do
      match ← m.instanceOf item with
      | none => itemRoots items roots
      | some i => itemRoots items (if i ∈ roots then roots else roots ++ [i])

/-- The roots: the entry point, then every local function without type parameters. -/
def roots : Query σ (List Instance) := do
  let entry ← m.entryRoot
  let items ← m.localItems
  m.itemRoots items entry

/-! ## Checks -/

/-- The entry point can be walked and is one of the local items. -/
def checkEntry : Query σ Unit := do
  match ← m.entryFn with
  | none => return
  | some entry =>
    if let some body ← m.bodyOfItem entry then Query.walkBody body
    let items ← m.localItems
    .ofCheck (expect (items.any fun item => Comparable.same item entry)
      ("Failed to find entry_fn `" ++ entry.name ++ "`") {})

/-- Every local body can be walked. -/
def checkBodies : Query σ Unit := do
  (← m.localItems).forM fun item => do
    if let some body ← m.bodyOfItem item then Query.walkBody body

/-- A crate is found by its name. -/
def checkCrate (what : String) (crate : Crate) : Query σ Unit := do
  .ofCheck (expectSame what (← m.findCrate crate.name) (some crate) {})

/-- Every crate is found by its name. -/
def checkCrates : Query σ Unit := do
  (← m.externalCrates).forM (m.checkCrate "external crate mismatch")
  m.checkCrate "local crate mismatch" (← m.localCrate)

/-- A walk of the body of an instance reproduces the body. -/
def checkInstance (i : Instance) : Query σ Unit := do
  if let some body ← m.bodyOf i then
    let _ ← Query.ofExcept (body.check i.name)

/-- A trait is found by its identity. -/
def checkTrait (decl : TraitDecl) : Query σ Unit := do
  .ofCheck (expectSame "trait declaration mismatch" (← m.traitDecl decl.defId) decl {})

/-- An impl is found by its identity and belongs to one of the traits. -/
def checkImpl (traits : List TraitDecl) (impl : TraitImpl) : Query σ Unit := do
  .ofCheck (expectSame "trait impl mismatch" (← m.traitImpl impl.defId) impl {})
  .ofCheck (expect (traits.any fun decl => decl.defId = impl.traitDef)
    ("Failed to find trait definition " ++ impl.traitDef.symbol ++ " of `" ++ impl.defId.symbol
      ++ "`") {})

/-- Every trait and impl is found by its identity, and every impl is of a declared trait. -/
def checkTraits : Query σ Unit := do
  let traits ← m.traitDecls
  traits.forM m.checkTrait
  (← m.traitImpls).forM (m.checkImpl traits)

end Model

/-! ## Discovery as a check -/

namespace Discovery

/-- What is said about several edges that could not be followed. -/
def edgeSummary (errors : List CheckFault) : CheckFault :=
  { kind := .plain
    message := toString errors.length ++ " call edge(s) could not be followed:\n    - "
      ++ String.intercalate "\n    - " (errors.map CheckFault.render) }

/-- The verdict on a search: a single finding stands for itself. -/
def verdict (d : Discovery) : Verdict :=
  match d.errors with
  | [] => .ok
  | [error] => .failed error
  | errors => .failed (edgeSummary errors)

/-- The progress line of a search. -/
def progressLine (d : Discovery) (roots : List Instance) : String :=
  "Discovered " ++ toString d.instances.length ++ " instance(s) from " ++ toString roots.length
    ++ " root(s)"

end Discovery

namespace Model

variable {σ : Type} (m : Model σ)

/-- Searches from the roots and records whether every call could be followed. -/
def auditDiscovery (config : RunConfig) (fuel : Nat) (roots : List Instance) :
    Audit σ Discovery := do
  let d ← Audit.ofRun (m.discover fuel roots)
  Audit.update fun s => s.note config (d.progressLine roots)
  Audit.update fun s => s.record config "test_instances" d.verdict
  return d

/-- The name of the check of an instance. -/
def bodyCheckName (i : Instance) : String :=
  "test_body[" ++ i.name ++ "]"

/-- The audit of a model. -/
def audit (config : RunConfig) (fuel : Nat) : Audit σ Unit := do
  let roots ← Audit.ofRun m.roots.inRun
  Audit.checkAll config
    [("test_entry_fn", m.checkEntry), ("test_all_fns", m.checkBodies),
     ("test_crates", m.checkCrates)]
  let d ← m.auditDiscovery config fuel roots
  Audit.checkAll config (d.instances.map fun i => (bodyCheckName i, m.checkInstance i))
  if config.fixme then Audit.check config "test_traits" m.checkTraits
  Audit.update fun s => s.finish config

end Model

end MirAudit
