import MirAudit.Check.Snapshot

/-!
# Distorted walks

To see that the comparison notices an unfaithful walk, a walk can be distorted: parts of it are
skipped or made twice, or the snapshot is changed afterwards.
-/

namespace MirAudit

/-- How a walk and its snapshot are distorted. -/
structure Distortion where
  skipBlock : Option Int := none
  repeatBlock : Option Int := none
  skipStatement : Option Int := none
  skipTerminator : Option Int := none
  repeatTerminator : Option Int := none
  hideLocalTypes : Bool := false
  hideLocatedTypes : Bool := false
  swapTerminators : Option (Int × Int) := none
  replaceTerminator : Option (Int × Terminator) := none
  replaceStatement : Option (Int × Int × Statement) := none
  reverseStatements : Bool := false
  forgetType : Option Ty := none

namespace Distortion

/-- What is visited in place of the visit of a part of a block. -/
def amendInner (d : Distortion) (visit : Visit) : List Visit :=
  match visit with
  | .node (.statement loc _) _ => if d.skipStatement = some loc.statement then [] else [visit]
  | .node (.terminator loc terminator) _ =>
    if d.skipTerminator = some loc.block then []
    else if d.repeatTerminator = some loc.block then
      [.node (.terminator loc terminator) [], visit]
    else [visit]
  | _ => [visit]

/-- What is visited in place of the visit of a part of a body. -/
def amend (d : Distortion) (visit : Visit) : List Visit :=
  match visit with
  | .node (.block index) inner =>
    let amended := Visit.node (.block index) (inner.flatMap d.amendInner)
    if d.skipBlock = some index then []
    else if d.repeatBlock = some index then [amended, amended]
    else [amended]
  | _ => [visit]

/-- Whether an event is recorded. -/
def records (d : Distortion) : Event → Bool
  | .ty none _ => !d.hideLocalTypes
  | .ty (some _) _ => !d.hideLocatedTypes
  | _ => true

/-- The distorted walk of a body. -/
def walk (d : Distortion) (body : Body) : Trace :=
  let trace := Visit.traceAll (fun _ => true) (body.visits.flatMap d.amend)
  { trace with events := trace.events.filter d.records }

/-- The list with the elements at two places exchanged. -/
def swap {α : Type} (i j : Int) (xs : List α) : List α :=
  match Position.get? xs i, Position.get? xs j with
  | some a, some b => Position.set (Position.set xs i b) j a
  | _, _ => xs

/-- The lists with another element at a place of one of them. -/
def replaceIn {α : Type} (i j : Int) (a : α) (lists : List (List α)) : List (List α) :=
  match Position.get? lists i with
  | some list => Position.set lists i (Position.set list j a)
  | none => lists

/-- The snapshot after the changes. -/
def change (d : Distortion) (s : Snapshot) : Snapshot :=
  let swapped := match d.swapTerminators with
    | some (i, j) => swap i j s.terminators
    | none => s.terminators
  let terminators := match d.replaceTerminator with
    | some (i, terminator) => Position.set swapped i terminator
    | none => swapped
  let replaced := match d.replaceStatement with
    | some (block, i, statement) => replaceIn block i statement s.statements
    | none => s.statements
  { terminators
    statements := if d.reverseStatements then replaced.map List.reverse else replaced
    types := s.types.filter fun ty => d.forgetType ≠ some ty }

/-- Compares the snapshot of the distorted walk with the body. -/
def check (d : Distortion) (name : String) (body : Body) : Except Fault Snapshot :=
  match (d.walk body).complete with
  | .error crash => .error (.crash crash)
  | .ok events => do
    let s := d.change (Snapshot.ofEvents events)
    liftFault (s.compare name body)
    return s

end Distortion

end MirAudit
