import MirAudit.Source.Scope
import MirAudit.Text.Literal

/-!
# Bodies from trees

Slots and blocks are numbered from zero without gaps. The return slot and the arguments must have
the types of the signature, every slot that is used must be declared, and every jump must lead to a
block of the body.
-/

namespace MirAudit.Source

/-- What a numeral is read as, where a part of a program is built. -/
def readNumeral {α : Type} (outcome : Except Digits.Overlong α) : Load α :=
  outcome.mapError .overlong

/-- The number behind the `_` of a slot. -/
def slotNumber (tok : Token) : Load Nat :=
  readNumeral (Digits.readNat (tok.text.drop 1))

/-- The number behind the `bb` of a block. -/
def blockNumber (tok : Token) : Load Nat :=
  readNumeral (Digits.readNat (tok.text.drop 2))

/-- The integer of a literal, or of the arm of a switch. -/
def integerValue (tok : Token) : Load Int :=
  readNumeral (Digits.readInt tok.text)

/-- A signature with its types resolved. -/
structure Signature where
  name : String
  generics : List GenericParam
  inputs : List Ty
  output : Ty

/-! ## Parts of blocks -/

/-- Where the parts of a body are built: the names in scope, and the number of declared slots. -/
structure BodyScope where
  scope : Scope
  slotCount : Nat

variable (s : BodyScope)

/-- The slot that a token names, if it is declared. -/
def lowerSlot (tok : Token) : Load Nat := do
  let slot ← slotNumber tok
  if slot < s.slotCount then return slot
  else throw ((LoadFault.undeclaredSlot tok s.slotCount).within tok.region)

/-- The constant that a literal denotes. -/
def LiteralTree.lower : LiteralTree → Load Const
  | .int tok => return .int (← integerValue tok)
  | .bool value => return .bool value
  | .str tok =>
    match Literal.decode tok.text with
    | some text => return .str text
    | none => throw ((LoadFault.malformedString tok).within tok.region)
  | .unit => return .unit

/-- The operand that a tree denotes. -/
def OperandTree.lower : OperandTree → Load Operand
  | .copy slot => return .copy (← lowerSlot s slot)
  | .move slot => return .move (← lowerSlot s slot)
  | .const value ty => do
    let ty ← ty.lower s.scope
    let value ← value.lower
    return .const ty value
  | .fnItem path args => do
    let fn ← lowerDef s.scope path
    let args ← lowerTypes s.scope args
    return .const (.fnDef fn args) .unit

/-- The right-hand side that a tree denotes. -/
def RvalueTree.lower : RvalueTree → Load Rvalue
  | .use operand => return .use (← operand.lower s)
  | .binary op lhs rhs => do
    let lhs ← lhs.lower s
    let rhs ← rhs.lower s
    return .binary op.string lhs rhs
  | .ref mutable slot => return .ref (← lowerSlot s slot) mutable
  | .cast operand ty => do
    let operand ← operand.lower s
    let ty ← ty.lower s.scope
    return .cast operand ty
  | .aggregate ty operands => do
    let ty ← ty.lower s.scope
    let operands ← operands.mapM (OperandTree.lower s)
    return .aggregate ty operands

/-- The statement that a tree denotes. -/
def StatementTree.lower : StatementTree → Load Statement
  | .assign slot rvalue => do
    let slot ← lowerSlot s slot
    let rvalue ← rvalue.lower s
    return .assign slot rvalue
  | .storageLive slot => return .storageLive (← lowerSlot s slot)
  | .storageDead slot => return .storageDead (← lowerSlot s slot)
  | .nop => return .nop

/-- The arm of a switch that a tree denotes. -/
def lowerArm (arm : Token × Token) : Load (Int × BlockNumber) := do
  let value ← integerValue arm.1
  let block ← blockNumber arm.2
  return (value, block)

/-- The block that a call returns to, if it returns. -/
def lowerCallTarget : Option Token → Load (Option BlockNumber)
  | none => return none
  | some target => do
    let block ← blockNumber target
    return some (block : BlockNumber)

/-- The terminator that a tree denotes. The arms of a switch come before what it switches on, the
callee and the arguments of a call before its destination. -/
def TerminatorTree.lower : TerminatorTree → Load Terminator
  | .goto target => return .goto (← blockNumber target)
  | .return => return .return
  | .unreachable => return .unreachable
  | .switch discr arms otherwise => do
    let targets ← arms.mapM lowerArm
    let discr ← discr.lower s
    let otherwise ← blockNumber otherwise
    return .switch discr targets otherwise
  | .call dest func args target => do
    let func ← func.lower s
    let args ← args.mapM (OperandTree.lower s)
    let dest ← lowerSlot s dest
    let target ← lowerCallTarget target
    return .call func args dest target
  | .drop slot target => do
    let slot ← lowerSlot s slot
    let target ← blockNumber target
    return .drop slot target
  | .assert cond expected target => do
    let cond ← cond.lower s
    let target ← blockNumber target
    return .assert cond expected target

/-! ## Bodies -/

/-- The declarations of the slots from number `next` on. -/
def lowerLocals (scope : Scope) : (next : Nat) → List LocalTree → Load (List LocalDecl)
  | _, [] => return []
  | next, tree :: trees => do
    let slot ← slotNumber tree.slot
    if slot ≠ next then
      throw ((LoadFault.slotOrder next tree.slot).within tree.slot.region)
    else
      let ty ← tree.ty.lower scope
      let decls ← lowerLocals scope (next + 1) trees
      return { ty, mutable := tree.mutable } :: decls

/-- The blocks from number `next` on. -/
def lowerBlocks : (next : Nat) → List BlockTree → Load (List Block)
  | _, [] => return []
  | next, tree :: trees => do
    let label ← blockNumber tree.label
    if label ≠ next then
      throw ((LoadFault.blockOrder next tree.label).within tree.label.region)
    else
      let statements ← tree.statements.mapM (StatementTree.lower s)
      let terminator ← tree.terminator.lower s
      let blocks ← lowerBlocks (next + 1) trees
      return { statements, terminator } :: blocks

/-- The first slot, from number `slot` on, whose type is not the expected one. -/
def slotMismatch? (fn : String) : (slot : Nat) → (expected : List Ty) → List LocalDecl →
    Option LoadFault
  | slot, want :: expected, decl :: decls =>
    if decl.ty = want then slotMismatch? fn (slot + 1) expected decls
    else some (.slotType slot fn decl.ty want)
  | _, _, _ => none

/-- How the slots disagree with the signature, if they do. -/
def signatureFault? (sig : Signature) (decls : List LocalDecl) : Option LoadFault :=
  let expected := sig.output :: sig.inputs
  if decls.length < expected.length then
    some (.tooFewSlots sig.name decls.length expected.length)
  else slotMismatch? sig.name 0 expected decls

/-- The first jump to a block that does not exist, from block number `index` on. -/
def jumpFault? (fn : String) (count : Nat) : (index : Nat) → List Block → Option LoadFault
  | _, [] => none
  | index, block :: blocks =>
    match block.terminator.successors.find? fun target => (count : Int) ≤ target with
    | some target => some (.undefinedBlock index fn target)
    | none => jumpFault? fn count (index + 1) blocks

/-- What is wrong with a finished body as a whole, if anything is. -/
def bodyFault? (sig : Signature) (decls : List LocalDecl) (blocks : List Block) :
    Option LoadFault :=
  match signatureFault? sig decls with
  | some fault => some fault
  | none =>
    if blocks.isEmpty then some (.noBlocks sig.name)
    else jumpFault? sig.name blocks.length 0 blocks

/-- The body that a tree denotes for a signature. -/
def BodyTree.lower (scope : Scope) (sig : Signature) (tree : Spanned BodyTree) : Load Body := do
  let locals ← lowerLocals scope 0 tree.value.locals
  let blocks ← lowerBlocks ⟨scope, locals.length⟩ 0 tree.value.blocks
  match bodyFault? sig locals blocks with
  | some fault => throw (fault.within tree.region)
  | none => return { blocks, locals, argCount := sig.inputs.length }

end MirAudit.Source
