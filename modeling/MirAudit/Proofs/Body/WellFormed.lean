import MirAudit.Proofs.Body.Fits

/-!
# Well-formed bodies

A body is well formed for a signature if it has a block, if every jump leads to one of its blocks
and every slot that it names is declared, and if its first slots are those of the signature. Every
operand of such a body has a type (`Body.WellFormed.operand_ty`), and substitution in the body and
in the signature keeps it well formed (`Body.WellFormed.subst`).
-/

namespace MirAudit

/-! ## Operands -/

/-- The operands of a right-hand side. -/
def Rvalue.operands : Rvalue → List Operand
  | .use operand | .cast operand _ => [operand]
  | .binary _ lhs rhs => [lhs, rhs]
  | .aggregate _ operands => operands
  | .ref _ _ | .unknown _ => []

/-- The operands of a statement. -/
def Statement.operands : Statement → List Operand
  | .assign _ rvalue => rvalue.operands
  | .storageLive _ | .storageDead _ | .nop | .unknown _ => []

/-- The operands of a terminator: what it tests, or what it calls with the arguments. -/
def Terminator.operands : Terminator → List Operand
  | .switch operand _ _ | .assert operand _ _ => [operand]
  | .call func args _ _ => func :: args
  | .goto _ | .return | .unreachable | .drop _ _ | .unknown _ => []

/-- The operands of a block. -/
def Block.operands (b : Block) : List Operand :=
  b.statements.flatMap Statement.operands ++ b.terminator.operands

/-- The operands of a body. -/
def Body.operands (b : Body) : List Operand :=
  b.blocks.flatMap Block.operands

section Operands

variable {count : Nat} {operand : Operand}

theorem Rvalue.Fits.of_mem_operands {rvalue : Rvalue} (h : rvalue.Fits count)
    (hoperand : operand ∈ rvalue.operands) : operand.Fits count := by
  cases rvalue with
  | use inner | cast inner ty =>
      obtain rfl := List.mem_singleton.mp hoperand
      exact h
  | binary op lhs rhs =>
      simp only [operands, List.mem_cons, List.not_mem_nil, or_false] at hoperand
      rcases hoperand with rfl | rfl
      · exact h.1
      · exact h.2
  | aggregate ty operands => exact h operand hoperand
  | ref slot mutable | unknown kind => exact absurd hoperand List.not_mem_nil

theorem Statement.Fits.of_mem_operands {statement : Statement} (h : statement.Fits count)
    (hoperand : operand ∈ statement.operands) : operand.Fits count := by
  cases statement with
  | assign slot rvalue => exact h.2.of_mem_operands hoperand
  | storageLive slot | storageDead slot | nop | unknown kind =>
      exact absurd hoperand List.not_mem_nil

theorem Terminator.Fits.of_mem_operands {terminator : Terminator} (h : terminator.Fits count)
    (hoperand : operand ∈ terminator.operands) : operand.Fits count := by
  cases terminator with
  | switch tested targets otherwise | assert tested expected target =>
      obtain rfl := List.mem_singleton.mp hoperand
      exact h
  | call func args dest target =>
      rcases List.mem_cons.mp hoperand with rfl | hoperand
      · exact h.1
      · exact h.2.1 operand hoperand
  | goto target | «return» | unreachable | drop slot target | unknown kind =>
      exact absurd hoperand List.not_mem_nil

/-- Every operand of a body that fits its declarations fits them. -/
theorem Body.Fits.of_mem_operands {b : Body} (h : b.Fits) (hoperand : operand ∈ b.operands) :
    operand.Fits b.locals.length := by
  obtain ⟨block, hblock, hoperand⟩ := List.mem_flatMap.mp hoperand
  have hfits := h block hblock
  rcases List.mem_append.mp hoperand with hoperand | hoperand
  · obtain ⟨statement, hstatement, hoperand⟩ := List.mem_flatMap.mp hoperand
    exact (hfits.statements statement hstatement).of_mem_operands hoperand
  · exact hfits.terminator.of_mem_operands hoperand

end Operands

/-! ## Well-formed bodies -/

/-- The body is well formed for functions with these inputs and this output. -/
structure Body.WellFormed (b : Body) (inputs : List Ty) (output : Ty) : Prop where
  has_block : 0 < b.blocks.length
  jumps : ∀ block ∈ b.blocks, ∀ target ∈ block.terminator.successors,
    0 ≤ target ∧ target < b.blocks.length
  slots : b.Fits
  arg_count : b.argCount = inputs.length
  enough_slots : b.argCount + 1 ≤ b.locals.length
  return_ty : b.returnTy? = some output
  arg_tys : b.argLocals.map LocalDecl.ty = inputs

namespace Body.WellFormed

variable {b : Body} {inputs : List Ty} {output : Ty}

/-- The slots of a signature are the first ones of a body that has their types in front. -/
theorem signature_slots (hcount : b.argCount = inputs.length)
    (hfront : output :: inputs <+: b.locals.map LocalDecl.ty) :
    b.argCount + 1 ≤ b.locals.length ∧ b.returnTy? = some output ∧
      b.argLocals.map LocalDecl.ty = inputs := by
  have hlength : inputs.length + 1 ≤ b.locals.length := by
    simpa using hfront.length_le
  have hcut : b.signatureLength = inputs.length + 1 := by
    have hslots : b.argCount + 1 = ((inputs.length + 1 : Nat) : Int) := by
      rw [hcount]
      rfl
    rw [signatureLength, hslots, Position.cut_natCast]
    exact Nat.min_eq_right hlength
  refine ⟨by omega, ?_, ?_⟩
  · obtain ⟨others, hothers⟩ := hfront
    have hhead := congrArg List.head? hothers
    rw [List.cons_append, List.head?_cons, List.head?_map] at hhead
    exact hhead.symm
  · have htake := List.prefix_iff_eq_take.mp hfront
    rw [List.length_cons] at htake
    rw [argLocals, hcut, List.map_drop, List.map_take, ← htake]
    rfl

/-- Every operand of a well-formed body has a type. -/
theorem operand_ty (h : b.WellFormed inputs output) {operand : Operand}
    (hoperand : operand ∈ b.operands) : ∃ ty, operand.ty b.locals = .ok ty :=
  (Body.Fits.of_mem_operands h.slots hoperand).ty

end Body.WellFormed

/-! ## Substitution -/

/-- Substitution does not change where a terminator leads. -/
theorem Terminator.successors_subst (s : Subst) (terminator : Terminator) :
    (terminator.subst s).successors = terminator.successors := by
  cases terminator <;> rfl

/-- A body that is well formed for a signature is so for the substituted signature, when it is
substituted itself. -/
theorem Body.WellFormed.subst {b : Body} {inputs : List Ty} {output : Ty}
    (h : b.WellFormed inputs output) (s : Subst) :
    (b.subst s).WellFormed (inputs.map (Ty.subst s)) (output.subst s) where
  has_block := by
    rw [Body.subst, List.length_map]
    exact h.has_block
  jumps block hblock target htarget := by
    obtain ⟨original, horiginal, rfl⟩ := List.mem_map.mp hblock
    rw [Block.subst, Terminator.successors_subst] at htarget
    rw [Body.subst, List.length_map]
    exact h.jumps original horiginal target htarget
  slots := h.slots.subst
  arg_count := by
    rw [List.length_map]
    exact h.arg_count
  enough_slots := by
    rw [Body.subst, List.length_map]
    exact h.enough_slots
  return_ty := by
    have hreturn : (b.subst s).returnTy? = b.returnTy?.map (Ty.subst s) := by
      show (b.locals.map (LocalDecl.subst s)).head?.map LocalDecl.ty = _
      rw [List.head?_map, returnTy?, Option.map_map, Option.map_map]
      rfl
    rw [hreturn, h.return_ty]
    rfl
  arg_tys := by
    have hlength : (b.subst s).signatureLength = b.signatureLength := by
      show Position.cut (b.locals.map (LocalDecl.subst s)).length (b.argCount + 1) = _
      rw [List.length_map]
      rfl
    have hargs : (b.subst s).argLocals = b.argLocals.map (LocalDecl.subst s) := by
      rw [argLocals, hlength, argLocals, List.map_drop, List.map_take]
      rfl
    rw [hargs, ← h.arg_tys, List.map_map, List.map_map]
    rfl

end MirAudit
