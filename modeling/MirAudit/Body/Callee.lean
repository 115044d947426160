import MirAudit.Fault
import MirAudit.Ty.Printer

/-!
# Callees

The callee of a call is identified by the type of its operand: a function item is known, a function
pointer is called indirectly, and any other type is a finding.
-/

namespace MirAudit

/-- The type of an operand among the given slots. -/
def Operand.ty (locals : List LocalDecl) : Operand → Except Crash Ty
  | .copy slot | .move slot =>
    match Position.get? locals slot with
    | some decl => .ok decl.ty
    | none => .error .outOfRange
  | .const ty _ => .ok ty
  | .unknown kind => .error (.untypedOperand kind)

/-- The type of the return slot, or the crash that there is none. -/
def Body.returnTy (b : Body) : Except Crash Ty :=
  match b.returnTy? with
  | some ty => .ok ty
  | none => .error .outOfRange

/-- What a call leads to. -/
inductive Callee where
  /-- A known function with its type arguments. -/
  | direct (function : DefId) (args : List Ty)
  /-- Whatever a function pointer holds at run time. -/
  | indirect
deriving DecidableEq

/-- The finding about a callee of another type. -/
def unexpectedCallee (ty : Ty) : CheckFault :=
  { kind := .calleeShape, message := "Unexpected call: callee has type `" ++ ty.render ++ "`" }

/-- What a callee of this type leads to. -/
def Callee.ofTy : Ty → Except Fault Callee
  | .fnDef function args => .ok (.direct function args)
  | .fnPtr _ _ => .ok .indirect
  | ty => .error (.check (unexpectedCallee ty))

/-- What a call of this operand leads to. -/
def Operand.callee (locals : List LocalDecl) (func : Operand) : Except Fault Callee :=
  match func.ty locals with
  | .ok ty => Callee.ofTy ty
  | .error crash => .error (.crash crash)

end MirAudit
