import MirAudit.Position
import MirAudit.Text.CodePoint
import MirAudit.Ty.Basic

/-!
# Bodies

A body is a list of basic blocks and a list of local declarations. Slot 0 is the return slot, the
next `argCount` slots are the arguments, the others are temporaries. Nothing here is checked: a
body may name slots and blocks that do not exist, or by a negative number, and may hold nodes of a
kind that this library does not know.
-/

namespace MirAudit

/-- The value of a constant; a function item has the value `unit`. -/
inductive Const where
  | unit
  | int (value : Int)
  | bool (value : Bool)
  | str (value : Text)
deriving DecidableEq

/-- The number of a slot: a position in the list of local declarations. -/
abbrev Slot := Int

/-- The number of a block: a position in the list of blocks. -/
abbrev BlockNumber := Int

/-- An operand. -/
inductive Operand where
  | copy (slot : Slot)
  | move (slot : Slot)
  | const (ty : Ty) (value : Const)
  | unknown (kind : String)
deriving DecidableEq

/-- The right-hand side of an assignment. -/
inductive Rvalue where
  | use (operand : Operand)
  | binary (op : String) (lhs rhs : Operand)
  | ref (slot : Slot) (mutable : Bool)
  | cast (operand : Operand) (ty : Ty)
  | aggregate (ty : Ty) (operands : List Operand)
  | unknown (kind : String)
deriving DecidableEq

/-- A statement; it never branches. -/
inductive Statement where
  | assign (slot : Slot) (rvalue : Rvalue)
  | storageLive (slot : Slot)
  | storageDead (slot : Slot)
  | nop
  | unknown (kind : String)
deriving DecidableEq

/-- The end of a basic block. -/
inductive Terminator where
  | goto (target : BlockNumber)
  | switch (discr : Operand) (targets : List (Int × BlockNumber)) (otherwise : BlockNumber)
  | return
  | unreachable
  /-- Calls `func` into slot `dest` and continues at `target`, if the call returns at all. -/
  | call (func : Operand) (args : List Operand) (dest : Slot) (target : Option BlockNumber)
  | drop (slot : Slot) (target : BlockNumber)
  /-- Continues at `target` if the condition has the expected value, otherwise panics. -/
  | assert (cond : Operand) (expected : Bool) (target : BlockNumber)
  | unknown (kind : String)
deriving DecidableEq

/-- The declaration of a slot. -/
structure LocalDecl where
  ty : Ty
  mutable : Bool := false
deriving DecidableEq

/-- Statements followed by one terminator. -/
structure Block where
  statements : List Statement
  terminator : Terminator
deriving DecidableEq

/-- The body of a function. -/
structure Body where
  blocks : List Block
  locals : List LocalDecl := []
  argCount : Int := 0
deriving DecidableEq

namespace Body

/-- The type of the return slot, if there is one. -/
def returnTy? (b : Body) : Option Ty :=
  b.locals.head?.map LocalDecl.ty

/-- How many slots stand in front of the first temporary. -/
def signatureLength (b : Body) : Nat :=
  Position.cut b.locals.length (b.argCount + 1)

/-- The declarations of the arguments. -/
def argLocals (b : Body) : List LocalDecl :=
  (b.locals.take b.signatureLength).drop 1

/-- The declarations of the temporaries. -/
def innerLocals (b : Body) : List LocalDecl :=
  b.locals.drop b.signatureLength

end Body

/-- The blocks that control may flow to after a terminator. -/
def Terminator.successors : Terminator → List BlockNumber
  | .goto target => [target]
  | .switch _ targets otherwise => targets.map Prod.snd ++ [otherwise]
  | .call _ _ _ target => target.toList
  | .drop _ target => [target]
  | .assert _ _ target => [target]
  | .return | .unreachable | .unknown _ => []

/-! ## Equality of values

A truth value and an integer are the same constant when they are the same number: true is one and
false is zero. -/

/-- The constant with a truth value read as a number. -/
def Const.canonical : Const → Const
  | .bool value => .int (if value then 1 else 0)
  | value => value

/-- The operand with canonical constants. -/
def Operand.canonical : Operand → Operand
  | .const ty value => .const ty value.canonical
  | operand => operand

/-- The right-hand side with canonical constants. -/
def Rvalue.canonical : Rvalue → Rvalue
  | .use operand => .use operand.canonical
  | .binary op lhs rhs => .binary op lhs.canonical rhs.canonical
  | .cast operand ty => .cast operand.canonical ty
  | .aggregate ty operands => .aggregate ty (operands.map Operand.canonical)
  | rvalue => rvalue

/-- The statement with canonical constants. -/
def Statement.canonical : Statement → Statement
  | .assign slot rvalue => .assign slot rvalue.canonical
  | statement => statement

/-- The terminator with canonical constants. -/
def Terminator.canonical : Terminator → Terminator
  | .switch discr targets otherwise => .switch discr.canonical targets otherwise
  | .call func args dest target =>
    .call func.canonical (args.map Operand.canonical) dest target
  | .assert cond expected target => .assert cond.canonical expected target
  | terminator => terminator

/-- The block with canonical constants. -/
def Block.canonical (b : Block) : Block :=
  ⟨b.statements.map Statement.canonical, b.terminator.canonical⟩

/-- The body with canonical constants. -/
def Body.canonical (b : Body) : Body :=
  { b with blocks := b.blocks.map Block.canonical }

end MirAudit
