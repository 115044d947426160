import MirAudit.Body.Walk
import MirAudit.Check.Expect

/-!
# Snapshots

A snapshot records what a walk of a body observes: the statements of each block, the terminators,
and the types. `Snapshot.compare` holds it against the body as the model reports it and gives the
first disagreement. The first block that differs is the one that is reported.
-/

namespace MirAudit

/-- What a walk observed. Each type is listed once. -/
structure Snapshot where
  statements : List (List Statement) := []
  terminators : List Terminator := []
  types : List Ty := []
deriving DecidableEq

namespace Snapshot

/-- Adds an element to the last of several lists. -/
def extendLast {α : Type} (a : α) : List (List α) → List (List α)
  | [] => []
  | [last] => [last ++ [a]]
  | list :: lists => list :: extendLast a lists

/-- The snapshot with one more observation. -/
def observe (s : Snapshot) : Event → Snapshot
  | .block _ => { s with statements := s.statements ++ [[]] }
  | .statement _ statement => { s with statements := extendLast statement s.statements }
  | .terminator _ terminator => { s with terminators := s.terminators ++ [terminator] }
  | .ty _ ty => { s with types := if ty ∈ s.types then s.types else s.types ++ [ty] }
  | _ => s

/-- The snapshot of a sequence of events. -/
def ofEvents (events : List Event) : Snapshot :=
  events.foldl observe {}

/-! ## Comparison -/

/-- Compares the statements of one block, one by one. -/
def compareStatements (place : Place) : (visited declared : List Statement) →
    Except CheckFault Unit
  | v :: visited, d :: declared => do
    expectSame "Visited statement" v d place
    compareStatements place visited declared
  | _, _ => .ok ()

/-- Compares the blocks from number `index` on. -/
def compareBlocks (name : String) : (index : Nat) → (blocks : List Block) →
    (visited : List (List Statement)) → List Terminator → Except CheckFault Unit
  | index, block :: blocks, statements :: visited, terminator :: terminators => do
    let place : Place := { function := some name, block := some index }
    expectSame "Visited statement count" statements.length block.statements.length place
    compareStatements place statements block.statements
    expectSame "Visited terminator" terminator block.terminator place
    compareBlocks name (index + 1) blocks visited terminators
  | _, _, _, _ => .ok ()

/-- The finding that the type of a local declaration was not seen. -/
def missingType (name : String) (slot : Nat) (ty : Ty) : CheckFault :=
  { kind := .mismatch
    message := "Missing type `" ++ ty.render ++ "` of local " ++ renderSlot slot
    function := some name
    expected := some ty.describe
    found := some "<not visited>" }

/-- Requires the type of every local declaration from slot `slot` on to have been seen. -/
def compareLocals (name : String) (types : List Ty) : (slot : Nat) → List LocalDecl →
    Except CheckFault Unit
  | _, [] => .ok ()
  | slot, decl :: locals =>
    if decl.ty ∈ types then compareLocals name types (slot + 1) locals
    else .error (missingType name slot decl.ty)

/-- Holds a snapshot against the body of the function `name`. -/
def compare (name : String) (body : Body) (s : Snapshot) : Except CheckFault Unit := do
  let place : Place := { function := some name }
  expectSame "Visited blocks" s.statements.length body.blocks.length place
  expectSame "Visited terminators vs. visited blocks" s.terminators.length s.statements.length
    place
  compareBlocks name 0 body.blocks s.statements s.terminators
  compareLocals name s.types 0 body.locals

end Snapshot

/-- The finding or the crash of a check, as a fault. -/
def liftFault {α : Type} : Except CheckFault α → Except Fault α
  | .ok a => .ok a
  | .error fault => .error (.check fault)

/-- The snapshot of a walk, compared with the body; a walk that got stuck is a crash. -/
def checkTrace (name : String) (body : Body) (trace : Trace) : Except Fault Snapshot :=
  match trace.complete with
  | .error crash => .error (.crash crash)
  | .ok events => do
    let s := Snapshot.ofEvents events
    liftFault (s.compare name body)
    return s

/-- Walks a body and compares what was seen with the body itself. -/
def Body.check (name : String) (body : Body) : Except Fault Snapshot :=
  checkTrace name body body.walk

end MirAudit
