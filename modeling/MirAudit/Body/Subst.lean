import MirAudit.Body.Basic
import MirAudit.Ty.Subst

/-!
# Substitution in bodies

Types occur in local declarations, constants, casts and aggregates. `Body.subst` replaces the
bound parameters at each of these places and changes nothing else.
-/

namespace MirAudit

/-- The operand with the parameters of its type replaced. -/
def Operand.subst (s : Subst) : Operand → Operand
  | .const ty value => .const (ty.subst s) value
  | operand => operand

/-- The right-hand side with the parameters of its types replaced. -/
def Rvalue.subst (s : Subst) : Rvalue → Rvalue
  | .use operand => .use (operand.subst s)
  | .binary op lhs rhs => .binary op (lhs.subst s) (rhs.subst s)
  | .ref slot mutable => .ref slot mutable
  | .cast operand ty => .cast (operand.subst s) (ty.subst s)
  | .aggregate ty operands => .aggregate (ty.subst s) (operands.map (Operand.subst s))
  | .unknown kind => .unknown kind

/-- The statement with the parameters of its types replaced. -/
def Statement.subst (s : Subst) : Statement → Statement
  | .assign slot rvalue => .assign slot (rvalue.subst s)
  | statement => statement

/-- The terminator with the parameters of its types replaced. -/
def Terminator.subst (s : Subst) : Terminator → Terminator
  | .switch discr targets otherwise => .switch (discr.subst s) targets otherwise
  | .call func args dest target =>
    .call (func.subst s) (args.map (Operand.subst s)) dest target
  | .assert cond expected target => .assert (cond.subst s) expected target
  | terminator => terminator

/-- The declaration with the parameters of its type replaced. -/
def LocalDecl.subst (s : Subst) (decl : LocalDecl) : LocalDecl :=
  { decl with ty := decl.ty.subst s }

/-- The block with the parameters of its types replaced. -/
def Block.subst (s : Subst) (b : Block) : Block :=
  ⟨b.statements.map (Statement.subst s), b.terminator.subst s⟩

/-- The body with the parameters of its types replaced. -/
def Body.subst (s : Subst) (b : Body) : Body :=
  { b with blocks := b.blocks.map (Block.subst s), locals := b.locals.map (LocalDecl.subst s) }

end MirAudit
