import MirAudit.Fault

/-!
# Walks

A walk goes through a body in a fixed order: the blocks in order, in each block the statements and
then the terminator, and at last the local declarations. `Body.visits` is the tree of what a walk
meets, and `Visit.trace` lists it in order. A walk that meets a node of an unknown form ends right
behind it.
-/

namespace MirAudit

/-- The place of a statement or terminator; a terminator comes behind all statements. -/
structure Location where
  block : Nat
  statement : Nat
deriving DecidableEq

/-- Something that a walk meets. The type of a local declaration has no location. -/
inductive Event where
  | block (index : Nat)
  | statement (loc : Location) (statement : Statement)
  | terminator (loc : Location) (terminator : Terminator)
  | rvalue (loc : Location) (rvalue : Rvalue)
  | operand (loc : Location) (operand : Operand)
  | place (loc : Location) (slot : Slot)
  | localDecl (slot : Nat) (decl : LocalDecl)
  | ty (loc : Option Location) (ty : Ty)
deriving DecidableEq

/-- An event with what lies inside it, or the end of the walk at an unknown node. -/
inductive Visit where
  | node (event : Event) (inner : List Visit)
  | unknown (node : UnknownNode)

/-! ## The tree of a walk -/

/-- The visit of a place. -/
def visitPlace (loc : Location) (slot : Slot) : Visit :=
  .node (.place loc slot) []

/-- The visit of a type. -/
def visitTy (loc : Option Location) (ty : Ty) : Visit :=
  .node (.ty loc ty) []

/-- The visit of an operand: its place, or its type. -/
def Operand.visit (loc : Location) (operand : Operand) : Visit :=
  .node (.operand loc operand) <|
    match operand with
    | .copy slot | .move slot => [visitPlace loc slot]
    | .const ty _ => [visitTy loc ty]
    | .unknown kind => [.unknown ⟨.operand, kind⟩]

/-- The visit of a right-hand side: its fields in order. -/
def Rvalue.visit (loc : Location) (rvalue : Rvalue) : Visit :=
  .node (.rvalue loc rvalue) <|
    match rvalue with
    | .use operand => [operand.visit loc]
    | .binary _ lhs rhs => [lhs.visit loc, rhs.visit loc]
    | .ref slot _ => [visitPlace loc slot]
    | .cast operand ty => [operand.visit loc, visitTy loc ty]
    | .aggregate ty operands => visitTy loc ty :: operands.map (Operand.visit loc)
    | .unknown kind => [.unknown ⟨.rvalue, kind⟩]

/-- The visit of a statement. -/
def Statement.visit (loc : Location) (statement : Statement) : Visit :=
  .node (.statement loc statement) <|
    match statement with
    | .assign slot rvalue => [visitPlace loc slot, rvalue.visit loc]
    | .storageLive slot | .storageDead slot => [visitPlace loc slot]
    | .nop => []
    | .unknown kind => [.unknown ⟨.statement, kind⟩]

/-- The visit of a terminator. -/
def Terminator.visit (loc : Location) (terminator : Terminator) : Visit :=
  .node (.terminator loc terminator) <|
    match terminator with
    | .goto _ | .return | .unreachable => []
    | .switch discr _ _ => [discr.visit loc]
    | .call func args dest _ =>
      func.visit loc :: (args.map (Operand.visit loc) ++ [visitPlace loc dest])
    | .drop slot _ => [visitPlace loc slot]
    | .assert cond _ _ => [cond.visit loc]
    | .unknown kind => [.unknown ⟨.terminator, kind⟩]

/-- The visit of a block: the statements in order, then the terminator. -/
def Block.visit (index : Nat) (block : Block) : Visit :=
  .node (.block index) <|
    block.statements.mapIdx (fun i statement => statement.visit ⟨index, i⟩)
      ++ [block.terminator.visit ⟨index, block.statements.length⟩]

/-- The visit of a local declaration. -/
def LocalDecl.visit (slot : Nat) (decl : LocalDecl) : Visit :=
  .node (.localDecl slot decl) [visitTy none decl.ty]

/-- Everything a walk of the body meets: the blocks, then the local declarations. -/
def Body.visits (b : Body) : List Visit :=
  b.blocks.mapIdx Block.visit ++ b.locals.mapIdx LocalDecl.visit

/-! ## Listing a walk -/

/-- The events of a walk in order, and the unknown node that ended it, if any. -/
structure Trace where
  events : List Event := []
  stuck : Option UnknownNode := none
deriving DecidableEq

/-- One trace after another; nothing follows a walk that got stuck. -/
def Trace.append (t u : Trace) : Trace :=
  match t.stuck with
  | some _ => t
  | none => ⟨t.events ++ u.events, u.stuck⟩

instance : Append Trace :=
  ⟨Trace.append⟩

mutual
/-- The trace of a visit that descends below the events that `descend` accepts. -/
def Visit.trace (descend : Event → Bool) : Visit → Trace
  | .node event inner =>
    ⟨[event], none⟩ ++ (if descend event then Visit.traceAll descend inner else {})
  | .unknown what => ⟨[], some what⟩

/-- The trace of visits one after another. -/
def Visit.traceAll (descend : Event → Bool) : List Visit → Trace
  | [] => {}
  | visit :: visits => visit.trace descend ++ Visit.traceAll descend visits
end

/-- The trace of a full walk. -/
def Body.walk (b : Body) : Trace :=
  Visit.traceAll (fun _ => true) b.visits

/-- The events of a full walk, or the crash that ended it. -/
def Trace.complete (t : Trace) : Except Crash (List Event) :=
  match t.stuck with
  | some node => .error (.unknownNode node)
  | none => .ok t.events

/-! ## Calls -/

/-- A call terminator: the block it ends and the operand it calls. -/
structure CallSite where
  block : Nat
  func : Operand
deriving DecidableEq

/-- The call at an event, if the event is one. -/
def Event.call? : Event → Option CallSite
  | .terminator loc (.call func _ _ _) => some ⟨loc.block, func⟩
  | _ => none

/-- The calls of a body in walk order, or the crash that ended the walk. -/
def Body.calls (b : Body) : Except Crash (List CallSite) :=
  b.walk.complete.map (·.filterMap Event.call?)

end MirAudit
