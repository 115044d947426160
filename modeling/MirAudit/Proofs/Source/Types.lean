import MirAudit.Proofs.Body.Types
import MirAudit.Proofs.Source.Bodies
import MirAudit.Proofs.Source.Names

/-!
# The types written in a body

`BodyTree.types` lists the types that are written in a body, wherever they stand. When the body is
built, its types are what these denote, in the same order: `BodyTree.lower_types`.
-/

namespace MirAudit.Source

/-- The types written in an operand; a function item is one itself. -/
def OperandTree.types : OperandTree → List TypeTree
  | .copy _ | .move _ => []
  | .const _ ty => [ty]
  | .fnItem path args => [.fnDef path args]

/-- The types written in a right-hand side. -/
def RvalueTree.types : RvalueTree → List TypeTree
  | .use operand => operand.types
  | .binary _ lhs rhs => lhs.types ++ rhs.types
  | .ref _ _ => []
  | .cast operand ty => operand.types ++ [ty]
  | .aggregate ty operands => ty :: operands.flatMap OperandTree.types

/-- The types written in a statement. -/
def StatementTree.types : StatementTree → List TypeTree
  | .assign _ rvalue => rvalue.types
  | .storageLive _ | .storageDead _ | .nop => []

/-- The types written in a terminator. -/
def TerminatorTree.types : TerminatorTree → List TypeTree
  | .switch discr _ _ => discr.types
  | .call _ func args _ => func.types ++ args.flatMap OperandTree.types
  | .assert cond _ _ => cond.types
  | .goto _ | .return | .unreachable | .drop _ _ => []

/-- The types written in a block. -/
def BlockTree.types (tree : BlockTree) : List TypeTree :=
  tree.statements.flatMap StatementTree.types ++ tree.terminator.types

/-- The types written in a body. -/
def BodyTree.types (tree : BodyTree) : List TypeTree :=
  tree.locals.map LocalTree.ty ++ tree.blocks.flatMap BlockTree.types

/-! ## What they denote -/

/-- The tree denotes some type. -/
def TypeTree.Denotes (s : Scope) (tree : TypeTree) : Prop :=
  ∃ ty, tree.lower s = .ok ty

variable {s : Scope} {count : Nat}

theorem lower_types_denote {trees : List TypeTree} {tys : List Ty}
    (h : lowerTypes s trees = .ok tys) : ∀ tree ∈ trees, tree.Denotes s := by
  rw [lower_types_eq_map_m] at h
  intro tree htree
  obtain ⟨ty, -, hty⟩ := Outcome.exists_of_map_m h htree
  exact ⟨ty, hty⟩

/-- A function item is a constant of its own type. -/
theorem OperandTree.fn_item_lower_eq_ok {path : PathTree} {args : List TypeTree}
    {operand : Operand} :
    (OperandTree.fnItem path args).lower ⟨s, count⟩ = .ok operand ↔
      ∃ ty, (TypeTree.fnDef path args).lower s = .ok ty ∧ .const ty .unit = operand := by
  simp only [OperandTree.lower, lowerDef, TypeTree.lower, Outcome.bind_eq_ok, Outcome.pure_eq_ok]
  constructor
  · intro h
    obtain ⟨_, ⟨segments, hsegments, rfl⟩, tys, htys, rfl⟩ := h
    exact ⟨_, ⟨segments, hsegments, tys, htys, rfl⟩, rfl⟩
  · intro h
    obtain ⟨_, ⟨segments, hsegments, tys, htys, rfl⟩, rfl⟩ := h
    exact ⟨_, ⟨segments, hsegments, rfl⟩, tys, htys, rfl⟩

/-! ### Lists of types -/

theorem lower_types_singleton {tree : TypeTree} {ty : Ty} (h : tree.lower s = .ok ty) :
    lowerTypes s [tree] = .ok [ty] := by
  rw [lower_types_eq_map_m, Outcome.map_m_eq_ok]
  exact .cons h .nil

theorem lower_types_append {trees more : List TypeTree} {tys others : List Ty}
    (h : lowerTypes s trees = .ok tys) (hmore : lowerTypes s more = .ok others) :
    lowerTypes s (trees ++ more) = .ok (tys ++ others) := by
  rw [lower_types_eq_map_m, Outcome.map_m_eq_ok] at h hmore ⊢
  exact List.rel_append h hmore

/-- The types in some nodes are what the types in their trees denote, if this is so for each. -/
theorem lower_types_flat_map {α β : Type} {f : α → List TypeTree} {g : β → List Ty}
    {build : α → Load β} {trees : List α} {nodes : List β} (h : trees.mapM build = .ok nodes)
    (hone : ∀ {tree node}, build tree = .ok node → lowerTypes s (f tree) = .ok (g node)) :
    lowerTypes s (trees.flatMap f) = .ok (nodes.flatMap g) := by
  rw [Outcome.map_m_eq_ok] at h
  induction h with
  | nil => rfl
  | cons hhead _ ih =>
      rw [List.flatMap_cons, List.flatMap_cons]
      exact lower_types_append (hone hhead) ih

/-! ### Nodes -/

theorem OperandTree.lower_types {tree : OperandTree} {operand : Operand}
    (h : tree.lower ⟨s, count⟩ = .ok operand) :
    lowerTypes s tree.types = .ok operand.types := by
  cases tree with
  | copy slot | move slot =>
      simp only [OperandTree.lower, Outcome.bind_eq_ok, Outcome.pure_eq_ok] at h
      obtain ⟨_, -, rfl⟩ := h
      rfl
  | const value ty =>
      simp only [OperandTree.lower, Outcome.bind_eq_ok, Outcome.pure_eq_ok] at h
      obtain ⟨lowered, hlowered, _, -, rfl⟩ := h
      exact lower_types_singleton hlowered
  | fnItem path args =>
      obtain ⟨ty, hty, rfl⟩ := fn_item_lower_eq_ok.mp h
      exact lower_types_singleton hty

theorem RvalueTree.lower_types {tree : RvalueTree} {rvalue : Rvalue}
    (h : tree.lower ⟨s, count⟩ = .ok rvalue) : lowerTypes s tree.types = .ok rvalue.types := by
  cases tree with
  | use operand =>
      simp only [RvalueTree.lower, Outcome.bind_eq_ok, Outcome.pure_eq_ok] at h
      obtain ⟨lowered, hlowered, rfl⟩ := h
      exact OperandTree.lower_types hlowered
  | binary op lhs rhs =>
      simp only [RvalueTree.lower, Outcome.bind_eq_ok, Outcome.pure_eq_ok] at h
      obtain ⟨left, hleft, right, hright, rfl⟩ := h
      exact lower_types_append (OperandTree.lower_types hleft) (OperandTree.lower_types hright)
  | ref mutable slot =>
      simp only [RvalueTree.lower, Outcome.bind_eq_ok, Outcome.pure_eq_ok] at h
      obtain ⟨_, -, rfl⟩ := h
      rfl
  | cast operand ty =>
      simp only [RvalueTree.lower, Outcome.bind_eq_ok, Outcome.pure_eq_ok] at h
      obtain ⟨lowered, hlowered, target, htarget, rfl⟩ := h
      exact lower_types_append (OperandTree.lower_types hlowered) (lower_types_singleton htarget)
  | aggregate ty operands =>
      simp only [RvalueTree.lower, Outcome.bind_eq_ok, Outcome.pure_eq_ok] at h
      obtain ⟨whole, hwhole, lowered, hlowered, rfl⟩ := h
      exact lower_types_append (lower_types_singleton hwhole)
        (lower_types_flat_map hlowered OperandTree.lower_types)

theorem StatementTree.lower_types {tree : StatementTree} {statement : Statement}
    (h : tree.lower ⟨s, count⟩ = .ok statement) :
    lowerTypes s tree.types = .ok statement.types := by
  cases tree with
  | assign slot rvalue =>
      simp only [StatementTree.lower, Outcome.bind_eq_ok, Outcome.pure_eq_ok] at h
      obtain ⟨_, -, lowered, hlowered, rfl⟩ := h
      exact RvalueTree.lower_types hlowered
  | storageLive slot | storageDead slot =>
      simp only [StatementTree.lower, Outcome.bind_eq_ok, Outcome.pure_eq_ok] at h
      obtain ⟨_, -, rfl⟩ := h
      rfl
  | nop =>
      obtain rfl := Outcome.pure_eq_ok.mp h
      rfl

theorem TerminatorTree.lower_types {tree : TerminatorTree} {terminator : Terminator}
    (h : tree.lower ⟨s, count⟩ = .ok terminator) :
    lowerTypes s tree.types = .ok terminator.types := by
  cases tree with
  | «return» | unreachable =>
      obtain rfl := Outcome.pure_eq_ok.mp h
      rfl
  | goto target =>
      simp only [TerminatorTree.lower, Outcome.bind_eq_ok, Outcome.pure_eq_ok] at h
      obtain ⟨_, -, rfl⟩ := h
      rfl
  | drop slot target =>
      simp only [TerminatorTree.lower, Outcome.bind_eq_ok, Outcome.pure_eq_ok] at h
      obtain ⟨_, -, _, -, rfl⟩ := h
      rfl
  | switch discr arms otherwise =>
      simp only [TerminatorTree.lower, Outcome.bind_eq_ok, Outcome.pure_eq_ok] at h
      obtain ⟨_, -, lowered, hlowered, _, -, rfl⟩ := h
      exact OperandTree.lower_types hlowered
  | assert discr expected target =>
      simp only [TerminatorTree.lower, Outcome.bind_eq_ok, Outcome.pure_eq_ok] at h
      obtain ⟨lowered, hlowered, _, -, rfl⟩ := h
      exact OperandTree.lower_types hlowered
  | call dest func args target =>
      simp only [TerminatorTree.lower, Outcome.bind_eq_ok, Outcome.pure_eq_ok] at h
      obtain ⟨callee, hcallee, operands, hoperands, _, -, _, -, rfl⟩ := h
      exact lower_types_append (OperandTree.lower_types hcallee)
        (lower_types_flat_map hoperands OperandTree.lower_types)

theorem lower_locals_types {next : Nat} {trees : List LocalTree} {locals : List LocalDecl}
    (h : lowerLocals s next trees = .ok locals) :
    lowerTypes s (trees.map LocalTree.ty) = .ok (locals.map LocalDecl.ty) := by
  induction trees generalizing next locals with
  | nil =>
      obtain rfl := Outcome.pure_eq_ok.mp h
      rfl
  | cons tree trees ih =>
      obtain ⟨-, ty, hty, rest, hrest, rfl⟩ := lower_locals_cons_eq_ok.mp h
      exact lower_types_append (lower_types_singleton hty) (ih hrest)

theorem lower_blocks_types {next : Nat} {trees : List BlockTree} {blocks : List Block}
    (h : lowerBlocks ⟨s, count⟩ next trees = .ok blocks) :
    lowerTypes s (trees.flatMap BlockTree.types) = .ok (blocks.flatMap Block.types) := by
  induction trees generalizing next blocks with
  | nil =>
      obtain rfl := Outcome.pure_eq_ok.mp h
      rfl
  | cons tree trees ih =>
      obtain ⟨-, statements, hstatements, terminator, hterminator, rest, hrest, rfl⟩ :=
        lower_blocks_cons_eq_ok.mp h
      rw [List.flatMap_cons, List.flatMap_cons, BlockTree.types, Block.types]
      have hblock := lower_types_append
        (lower_types_flat_map hstatements StatementTree.lower_types)
        (TerminatorTree.lower_types hterminator)
      exact lower_types_append hblock (ih hrest)

/-- The types in a body that was built are what the types written in it denote. -/
theorem BodyTree.lower_types {sig : Signature} {tree : Spanned BodyTree} {body : Body}
    (h : BodyTree.lower s sig tree = .ok body) : lowerTypes s tree.value.types = .ok body.types := by
  obtain ⟨locals, blocks, hlocals, hblocks, -, rfl⟩ := BodyTree.lower_eq_ok.mp h
  exact lower_types_append (lower_locals_types hlocals) (lower_blocks_types hblocks)

/-- Every type written in a body that was built denotes a type. -/
theorem BodyTree.types_denote {sig : Signature} {tree : Spanned BodyTree} {body : Body}
    (h : BodyTree.lower s sig tree = .ok body) : ∀ ty ∈ tree.value.types, ty.Denotes s :=
  lower_types_denote (BodyTree.lower_types h)

end MirAudit.Source
