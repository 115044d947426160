import MirAudit.Body.Callee
import MirAudit.Body.Subst
import MirAudit.Proofs.Body.Walk

/-!
# The types in a body

`Body.types` lists the types in a body, wherever they stand: in declarations, constants, casts and
aggregates. Substitution in the body is substitution in each of them (`Body.types_subst`). The type
of a callee is one of them (`Body.callee_ty_mem_types`), and so is every type that a walk lists
(`Body.mem_types_of_walk`).
-/

namespace MirAudit

/-- The type in an operand; a function item is a constant of its own type. -/
def Operand.types : Operand → List Ty
  | .const ty _ => [ty]
  | .copy _ | .move _ | .unknown _ => []

/-- The types in a right-hand side. -/
def Rvalue.types : Rvalue → List Ty
  | .use operand => operand.types
  | .binary _ lhs rhs => lhs.types ++ rhs.types
  | .cast operand ty => operand.types ++ [ty]
  | .aggregate ty operands => ty :: operands.flatMap Operand.types
  | .ref _ _ | .unknown _ => []

/-- The types in a statement. -/
def Statement.types : Statement → List Ty
  | .assign _ rvalue => rvalue.types
  | .storageLive _ | .storageDead _ | .nop | .unknown _ => []

/-- The types in a terminator. -/
def Terminator.types : Terminator → List Ty
  | .switch discr _ _ => discr.types
  | .call func args _ _ => func.types ++ args.flatMap Operand.types
  | .assert cond _ _ => cond.types
  | .goto _ | .return | .unreachable | .drop _ _ | .unknown _ => []

/-- The types in a block. -/
def Block.types (b : Block) : List Ty :=
  b.statements.flatMap Statement.types ++ b.terminator.types

/-- The types in a body. -/
def Body.types (b : Body) : List Ty :=
  b.locals.map LocalDecl.ty ++ b.blocks.flatMap Block.types

/-! ## Substitution -/

variable (s : Subst)

@[simp] theorem Operand.types_subst (operand : Operand) :
    (operand.subst s).types = operand.types.map (Ty.subst s) := by
  cases operand <;> rfl

@[simp] theorem Rvalue.types_subst (rvalue : Rvalue) :
    (rvalue.subst s).types = rvalue.types.map (Ty.subst s) := by
  cases rvalue <;> simp [subst, types, List.map_flatMap, List.flatMap_map]

@[simp] theorem Statement.types_subst (statement : Statement) :
    (statement.subst s).types = statement.types.map (Ty.subst s) := by
  cases statement <;> simp [subst, types]

@[simp] theorem Terminator.types_subst (terminator : Terminator) :
    (terminator.subst s).types = terminator.types.map (Ty.subst s) := by
  cases terminator <;> simp [subst, types, List.map_flatMap, List.flatMap_map]

@[simp] theorem Block.types_subst (b : Block) :
    (b.subst s).types = b.types.map (Ty.subst s) := by
  simp [subst, types, List.map_flatMap, List.flatMap_map]

/-- Substitution in a body is substitution in each of its types. -/
theorem Body.types_subst (b : Body) : (b.subst s).types = b.types.map (Ty.subst s) := by
  simp [subst, types, LocalDecl.subst, List.map_flatMap, List.flatMap_map, Function.comp_def]

/-- The type of an operand among substituted slots is its type with the parameters replaced. -/
theorem Operand.ty_subst (locals : List LocalDecl) (operand : Operand) :
    (operand.subst s).ty (locals.map (LocalDecl.subst s)) =
      (operand.ty locals).map (Ty.subst s) := by
  cases operand with
  | copy slot | move slot =>
      unfold Operand.subst Operand.ty
      dsimp only
      rw [Position.get?_map]
      cases Position.get? locals slot <;> rfl
  | const ty value => rfl
  | unknown kind => rfl

/-! ## Callees -/

theorem Position.mem_of_get {α : Type} {xs : List α} {i : Int} {a : α} (h : get? xs i = some a) :
    a ∈ xs := by
  obtain ⟨n, -, hn⟩ := Option.bind_eq_some_iff.mp h
  exact List.mem_of_getElem? hn

/-- The type of an operand is that of a declaration, or stands in the operand. -/
theorem Operand.ty_cases {locals : List LocalDecl} {operand : Operand} {ty : Ty}
    (h : operand.ty locals = .ok ty) : ty ∈ locals.map LocalDecl.ty ∨ ty ∈ operand.types := by
  cases operand with
  | copy slot | move slot =>
      cases hdecl : Position.get? locals slot with
      | none => simp only [Operand.ty, hdecl, reduceCtorEq] at h
      | some decl =>
          simp only [Operand.ty, hdecl, Except.ok.injEq] at h
          subst h
          exact Or.inl (List.mem_map_of_mem (Position.mem_of_get hdecl))
  | const own value =>
      cases h
      exact Or.inr (List.mem_singleton_self _)
  | unknown kind => cases h

/-- The type of a callee is one of the types of the body. -/
theorem Body.callee_ty_mem_types {b : Body} {block : Block} (hblock : block ∈ b.blocks)
    {func : Operand} {args : List Operand} {dest : Slot} {target : Option BlockNumber}
    (hcall : block.terminator = .call func args dest target) {ty : Ty}
    (hty : func.ty b.locals = .ok ty) : ty ∈ b.types := by
  rcases Operand.ty_cases hty with hty | hty
  · exact List.mem_append_left _ hty
  · refine List.mem_append_right _ (List.mem_flatMap.mpr ⟨block, hblock, ?_⟩)
    rw [Block.types, hcall]
    exact List.mem_append_right _ (List.mem_append_left _ hty)

/-! ## Types that a walk meets -/

namespace Visit

mutual
/-- The types that a visit meets, at whatever depth. -/
def types : Visit → List Ty
  | .node (.ty _ ty) inner => ty :: typesAll inner
  | .node _ inner => typesAll inner
  | .unknown _ => []

/-- The types that visits meet. -/
def typesAll : List Visit → List Ty
  | [] => []
  | visit :: visits => visit.types ++ typesAll visits
end

/-- The place of an element does not matter where its image is the same at every place. -/
theorem flat_map_map_idx {α β γ : Type} {f : Nat → α → β} {g : β → List γ} {k : α → List γ}
    (h : ∀ i a, g (f i a) = k a) (as : List α) : (as.mapIdx f).flatMap g = as.flatMap k := by
  induction as generalizing f with
  | nil => rfl
  | cons a as ih =>
      rw [List.mapIdx_cons, List.flatMap_cons, List.flatMap_cons, h, ih fun i a => h (i + 1) a]

theorem types_all_eq_flat_map (visits : List Visit) : typesAll visits = visits.flatMap types := by
  induction visits with
  | nil => rfl
  | cons visit visits ih => rw [typesAll, ih, List.flatMap_cons]

@[simp] theorem types_place (l : Location) (slot : Slot) : (visitPlace l slot).types = [] :=
  rfl

@[simp] theorem types_ty (l : Option Location) (ty : Ty) : (visitTy l ty).types = [ty] :=
  rfl

@[simp] theorem types_operand (l : Location) (operand : Operand) :
    (operand.visit l).types = operand.types := by
  cases operand <;> rfl

theorem flat_map_operands (l : Location) (operands : List Operand) :
    (operands.map (Operand.visit l)).flatMap types = operands.flatMap Operand.types := by
  simp [List.flatMap_map]

@[simp] theorem types_rvalue (l : Location) (rvalue : Rvalue) :
    (rvalue.visit l).types = rvalue.types := by
  cases rvalue <;>
    simp [Rvalue.visit, types, types_all_eq_flat_map, flat_map_operands, Rvalue.types]

@[simp] theorem types_statement (l : Location) (statement : Statement) :
    (statement.visit l).types = statement.types := by
  cases statement <;> simp [Statement.visit, types, types_all_eq_flat_map, Statement.types]

@[simp] theorem types_terminator (l : Location) (terminator : Terminator) :
    (terminator.visit l).types = terminator.types := by
  cases terminator <;>
    simp [Terminator.visit, types, types_all_eq_flat_map, flat_map_operands, Terminator.types]

@[simp] theorem types_block (index : Nat) (block : Block) :
    (block.visit index).types = block.types := by
  have hstatements := flat_map_map_idx (fun i => types_statement ⟨index, i⟩) block.statements
  simp [Block.visit, types, types_all_eq_flat_map, hstatements, Block.types]

/-- A full walk meets the types in the body. -/
theorem types_all_visits (b : Body) :
    typesAll b.visits = b.blocks.flatMap Block.types ++ b.locals.map LocalDecl.ty := by
  have hlocal (slot : Nat) (decl : LocalDecl) : (decl.visit slot).types = [decl.ty] := rfl
  rw [types_all_eq_flat_map, Body.visits, List.flatMap_append, flat_map_map_idx types_block,
    flat_map_map_idx hlocal, ← List.map_eq_flatMap]

theorem types_inner_subset (event : Event) (inner : List Visit) :
    typesAll inner ⊆ (node event inner).types := by
  cases event with
  | ty => exact List.subset_cons_self _ _
  | block | statement | terminator | rvalue | operand | place | localDecl =>
      exact List.Subset.refl _

mutual
/-- A type that a walk lists is one that the visit meets. -/
theorem mem_types_of_trace {descend : Event → Bool} {l : Option Location} {ty : Ty} :
    ∀ {visit : Visit}, .ty l ty ∈ (visit.trace descend).events → ty ∈ visit.types
  | .unknown _, h => absurd h List.not_mem_nil
  | .node event inner, h => by
    rcases Trace.mem_append h with h | h
    · obtain rfl := List.mem_singleton.mp h
      exact List.mem_cons_self
    · refine types_inner_subset event inner ?_
      split at h
      next => exact mem_types_of_trace_all h
      next => exact absurd h List.not_mem_nil

theorem mem_types_of_trace_all {descend : Event → Bool} {l : Option Location} {ty : Ty} :
    ∀ {visits : List Visit}, .ty l ty ∈ (traceAll descend visits).events → ty ∈ typesAll visits
  | [], h => absurd h List.not_mem_nil
  | visit :: visits, h => by
    rcases Trace.mem_append h with h | h
    · exact List.mem_append_left _ (mem_types_of_trace h)
    · exact List.mem_append_right _ (mem_types_of_trace_all h)
end

end Visit

/-- A type that a full walk of a body lists stands in the body. -/
theorem Body.mem_types_of_walk {b : Body} {l : Option Location} {ty : Ty}
    (h : .ty l ty ∈ b.walk.events) : ty ∈ b.types := by
  have hmem := Visit.mem_types_of_trace_all h
  rw [Visit.types_all_visits] at hmem
  exact List.mem_append.mpr (List.mem_append.mp hmem).symm

end MirAudit
