import MirAudit.Body.Basic
import MirAudit.Text.Literal
import MirAudit.Ty.Printer

/-!
# Printed bodies

Statements, terminators and types are written in the source syntax. The header of a printed
function carries the name of the instance, which may hold a path. Nodes of an unknown kind are
written as invalid.
-/

namespace MirAudit

/-- A slot. -/
def renderSlot (slot : Slot) : String :=
  "_" ++ toString slot

/-- A reference to a block. -/
def renderBlockRef (index : BlockNumber) : String :=
  "bb" ++ toString index

/-- A constant. -/
def Const.render : Const → String
  | .unit => "()"
  | .int value => toString value
  | .bool value => if value then "true" else "false"
  | .str value => String.ofList (Literal.encode value)

/-- An operand; a function item is written as its type. -/
def Operand.render : Operand → String
  | .copy slot => "copy " ++ renderSlot slot
  | .move slot => "move " ++ renderSlot slot
  | .const (.fnDef callee args) .unit => (Ty.fnDef callee args).render
  | .const ty value => "const " ++ value.render ++ ": " ++ ty.render
  | .unknown _ => "<invalid operand>"

/-- Operands separated by commas. -/
def renderOperands (operands : List Operand) : String :=
  String.intercalate ", " (operands.map Operand.render)

/-- The right-hand side of an assignment. -/
def Rvalue.render : Rvalue → String
  | .use operand => operand.render
  | .binary op lhs rhs => op ++ "(" ++ lhs.render ++ ", " ++ rhs.render ++ ")"
  | .ref slot mutable => (if mutable then "&mut " else "&") ++ renderSlot slot
  | .cast operand ty => "cast(" ++ operand.render ++ " as " ++ ty.render ++ ")"
  | .aggregate ty operands =>
    "aggregate " ++ ty.render ++ "(" ++ renderOperands operands ++ ")"
  | .unknown _ => "<invalid rvalue>"

/-- A statement. -/
def Statement.render : Statement → String
  | .assign slot rvalue => renderSlot slot ++ " = " ++ rvalue.render ++ ";"
  | .storageLive slot => "StorageLive(" ++ renderSlot slot ++ ");"
  | .storageDead slot => "StorageDead(" ++ renderSlot slot ++ ");"
  | .nop => "nop;"
  | .unknown _ => "<invalid statement>;"

/-- One arm of a switch, with the comma that separates it from the next. -/
def renderArm (arm : Int × BlockNumber) : String :=
  toString arm.1 ++ ": " ++ renderBlockRef arm.2 ++ ", "

/-- A terminator. -/
def Terminator.render : Terminator → String
  | .goto target => "goto -> " ++ renderBlockRef target ++ ";"
  | .return => "return;"
  | .unreachable => "unreachable;"
  | .switch discr targets otherwise =>
    "switchInt(" ++ discr.render ++ ") -> [" ++ String.join (targets.map renderArm)
      ++ "otherwise: " ++ renderBlockRef otherwise ++ "];"
  | .call func args dest target =>
    "call " ++ renderSlot dest ++ " = " ++ func.render ++ "(" ++ renderOperands args ++ ") -> "
      ++ (match target with
        | none => "!"
        | some target => renderBlockRef target)
      ++ ";"
  | .drop slot target => "drop(" ++ renderSlot slot ++ ") -> " ++ renderBlockRef target ++ ";"
  | .assert cond expected target =>
    "assert(" ++ cond.render ++ ", " ++ (if expected then "true" else "false") ++ ") -> "
      ++ renderBlockRef target ++ ";"
  | .unknown _ => "<invalid terminator>;"

/-- The line that declares a slot. -/
def LocalDecl.renderLine (slot : Nat) (decl : LocalDecl) : String :=
  "\tlet " ++ (if decl.mutable then "mut " else "") ++ renderSlot slot ++ ": " ++ decl.ty.render
    ++ ";"

/-- The lines of a block. -/
def Block.renderLines (index : Nat) (block : Block) : List String :=
  ["\t" ++ renderBlockRef index ++ ": \x7b"]
    ++ block.statements.map (fun statement => "\t\t" ++ statement.render)
    ++ ["\t\t" ++ block.terminator.render, "\t\x7d"]

namespace Body

/-- The header of the printed function. -/
def renderHeader (name : String) (b : Body) : String :=
  "fn " ++ name ++ "("
    ++ String.intercalate ", " (b.argLocals.map fun decl => decl.ty.render) ++ ") -> "
    ++ (match b.locals with
      | [] => "()"
      | decl :: _ => decl.ty.render)
    ++ " \x7b"

/-- The lines of the body: the slots, then the blocks. -/
def renderLines (b : Body) : List String :=
  b.locals.mapIdx LocalDecl.renderLine ++ (b.blocks.mapIdx Block.renderLines).flatten

/-- The body as the definition of a function called `name`. -/
def render (name : String) (b : Body) : String :=
  String.intercalate "\n" (renderHeader name b :: (renderLines b ++ ["\x7d"]))

end Body

/-! ## Structural descriptions -/

/-- The structural description of a slot as a place. -/
def describePlace (slot : Slot) : String :=
  Describe.record "Place" [("local", Describe.int slot)]

/-- The structural description of a constant's value. -/
def Const.describe : Const → String
  | .unit => Describe.none
  | .int value => Describe.int value
  | .bool value => Describe.bool value
  | .str value => Describe.text value

/-- The structural description of an operand. -/
def Operand.describe : Operand → String
  | .copy slot => Describe.record "Copy" [("place", describePlace slot)]
  | .move slot => Describe.record "Move" [("place", describePlace slot)]
  | .const ty value =>
    Describe.record "Constant" [("ty", ty.describe), ("value", value.describe)]
  | .unknown kind => Describe.record kind []

/-- The structural description of a right-hand side. -/
def Rvalue.describe : Rvalue → String
  | .use operand => Describe.record "Use" [("operand", operand.describe)]
  | .binary op lhs rhs =>
    Describe.record "BinaryOp"
      [("op", Describe.string op), ("lhs", lhs.describe), ("rhs", rhs.describe)]
  | .ref slot mutable =>
    Describe.record "Ref" [("place", describePlace slot), ("mutable", Describe.bool mutable)]
  | .cast operand ty =>
    Describe.record "Cast" [("operand", operand.describe), ("ty", ty.describe)]
  | .aggregate ty operands =>
    Describe.record "Aggregate"
      [("ty", ty.describe), ("operands", Describe.tuple (operands.map Operand.describe))]
  | .unknown kind => Describe.record kind []

/-- The structural description of a statement. -/
def Statement.describe : Statement → String
  | .assign slot rvalue =>
    Describe.record "Assign" [("place", describePlace slot), ("rvalue", rvalue.describe)]
  | .storageLive slot => Describe.record "StorageLive" [("local", Describe.int slot)]
  | .storageDead slot => Describe.record "StorageDead" [("local", Describe.int slot)]
  | .nop => Describe.record "Nop" []
  | .unknown kind => Describe.record kind []

/-- The structural description of a terminator. -/
def Terminator.describe : Terminator → String
  | .goto target => Describe.record "Goto" [("target", Describe.int target)]
  | .switch discr targets otherwise =>
    Describe.record "SwitchInt"
      [("discr", discr.describe),
       ("targets", Describe.tuple (targets.map fun arm =>
          Describe.tuple [Describe.int arm.1, Describe.int arm.2])),
       ("otherwise", Describe.int otherwise)]
  | .return => Describe.record "Return" []
  | .unreachable => Describe.record "Unreachable" []
  | .call func args dest target =>
    Describe.record "Call"
      [("func", func.describe), ("args", Describe.tuple (args.map Operand.describe)),
       ("destination", describePlace dest), ("target", Describe.option Describe.int target)]
  | .drop slot target =>
    Describe.record "Drop" [("place", describePlace slot), ("target", Describe.int target)]
  | .assert cond expected target =>
    Describe.record "Assert"
      [("cond", cond.describe), ("expected", Describe.bool expected),
       ("target", Describe.int target)]
  | .unknown kind => Describe.record kind []

/-- The structural description of a slot's declaration. -/
def LocalDecl.describe (decl : LocalDecl) : String :=
  Describe.record "LocalDecl"
    [("ty", decl.ty.describe), ("mutable", Describe.bool decl.mutable)]

/-- The structural description of a block. -/
def Block.describe (block : Block) : String :=
  Describe.record "BasicBlock"
    [("statements", Describe.tuple (block.statements.map Statement.describe)),
     ("terminator", block.terminator.describe)]

/-- The structural description of a body. -/
def Body.describe (b : Body) : String :=
  Describe.record "Body"
    [("blocks", Describe.tuple (b.blocks.map Block.describe)),
     ("locals", Describe.tuple (b.locals.map LocalDecl.describe)),
     ("arg_count", Describe.int b.argCount)]

end MirAudit
