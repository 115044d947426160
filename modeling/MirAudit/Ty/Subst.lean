import MirAudit.Ty.Basic

/-!
# Substitution of type parameters

A substitution binds parameter names to types; the first binding of a name counts. `Ty.subst`
replaces every bound parameter and leaves the others.
-/

namespace MirAudit

/-- A binding of parameter names to types, in order. -/
structure Subst where
  bindings : List (String × Ty)

/-- The numbers of parameters and of arguments differ. -/
structure ArityMismatch where
  params : Nat
  args : Nat
deriving DecidableEq

/-- The wording of an arity mismatch. -/
def ArityMismatch.message (m : ArityMismatch) : String :=
  "substitution arity mismatch: " ++ toString m.params ++ " params, " ++ toString m.args ++ " args"

namespace Subst

/-- Binds each parameter to the argument at its place. -/
def of (params : List String) (args : List Ty) : Except ArityMismatch Subst :=
  if params.length = args.length then .ok ⟨params.zip args⟩
  else .error ⟨params.length, args.length⟩

/-- The type bound to a name: its first binding counts. -/
def lookup (s : Subst) (name : String) : Option Ty :=
  s.bindings.lookup name

/-- Whether nothing is bound. -/
def isIdentity (s : Subst) : Bool :=
  s.bindings.isEmpty

end Subst

namespace Ty

mutual
/-- The type with every bound parameter replaced. -/
def subst (s : Subst) : Ty → Ty
  | .scalar name => .scalar name
  | .adt name args => .adt name (substAll s args)
  | .ref pointee mutable => .ref (subst s pointee) mutable
  | .tuple elems => .tuple (substAll s elems)
  | .param name => (s.lookup name).getD (.param name)
  | .fnDef callee args => .fnDef callee (substAll s args)
  | .fnPtr inputs output => .fnPtr (substAll s inputs) (subst s output)

/-- Each type with every bound parameter replaced. -/
def substAll (s : Subst) : List Ty → List Ty
  | [] => []
  | t :: ts => subst s t :: substAll s ts
end

/-- Substitution acts on the types of a list one by one. -/
theorem substAll_eq_map (s : Subst) (ts : List Ty) : substAll s ts = ts.map (subst s) := by
  induction ts with
  | nil => rfl
  | cons t ts ih => simp [substAll, ih]

end Ty

end MirAudit
