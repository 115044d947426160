import MirAudit.Proofs.Body.WellFormed
import MirAudit.Proofs.Source.Arguments
import MirAudit.Proofs.Source.Functions
import MirAudit.Proofs.Source.Types

/-!
# Bodies built in two scopes

What a body denotes depends on its scope only through the types written in it. So a body denotes in
a second scope what substitution makes of it exactly if each of its types does:
`lower_body_subst_iff`.
-/

namespace MirAudit.Source

/-! ## Parts of blocks -/

variable {s s' : Scope} {σ : Subst} {count : Nat}

/-- An operand denotes in the second scope its instance exactly if its types do. -/
theorem OperandTree.lower_subst_iff {tree : OperandTree} {operand : Operand}
    (h : tree.lower ⟨s, count⟩ = .ok operand) :
    tree.lower ⟨s', count⟩ = .ok (operand.subst σ) ↔
      ∀ ty ∈ tree.types, ty.Agrees s s' σ := by
  cases tree with
  | copy slot | move slot =>
      -- the slots are declared, whatever is in scope
      have hsame := h
      simp only [OperandTree.lower, Outcome.bind_eq_ok, Outcome.pure_eq_ok] at h
      obtain ⟨n, hn, rfl⟩ := h
      simp only [types, List.not_mem_nil, false_imp_iff, implies_true, iff_true]
      exact hsame
  | const value ty =>
      simp only [OperandTree.lower, Outcome.bind_eq_ok, Outcome.pure_eq_ok] at h ⊢
      obtain ⟨lowered, hlowered, constant, hconstant, rfl⟩ := h
      simp only [types, List.forall_mem_singleton, TypeTree.agrees_iff hlowered, Operand.subst]
      constructor
      · intro h
        obtain ⟨_, hty, _, _, ⟨⟩⟩ := h
        exact hty
      · intro hty
        exact ⟨_, hty, constant, hconstant, rfl⟩
  | fnItem path args =>
      obtain ⟨ty, hty, rfl⟩ := fn_item_lower_eq_ok.mp h
      simp only [types, List.forall_mem_singleton, TypeTree.agrees_iff hty, fn_item_lower_eq_ok,
        Operand.subst]
      constructor
      · intro h
        obtain ⟨_, hother, ⟨⟩⟩ := h
        exact hother
      · intro hother
        exact ⟨_, hother, rfl⟩

/-- Operands denote in the second scope their instances exactly if their types do. -/
theorem OperandTree.lower_all_subst_iff {trees : List OperandTree} {operands : List Operand}
    (h : trees.mapM (OperandTree.lower ⟨s, count⟩) = .ok operands) :
    trees.mapM (OperandTree.lower ⟨s', count⟩) = .ok (operands.map (Operand.subst σ)) ↔
      ∀ ty ∈ trees.flatMap OperandTree.types, ty.Agrees s s' σ := by
  rw [List.forall_mem_flatMap]
  exact Outcome.map_m_map_iff h fun tree operand hlower => lower_subst_iff hlower

/-- A right-hand side denotes in the second scope its instance exactly if its types do. -/
theorem RvalueTree.lower_subst_iff {tree : RvalueTree} {rvalue : Rvalue}
    (h : tree.lower ⟨s, count⟩ = .ok rvalue) :
    tree.lower ⟨s', count⟩ = .ok (rvalue.subst σ) ↔ ∀ ty ∈ tree.types, ty.Agrees s s' σ := by
  cases tree with
  | use operand =>
      simp only [RvalueTree.lower, Outcome.bind_eq_ok, Outcome.pure_eq_ok] at h ⊢
      obtain ⟨lowered, hlowered, rfl⟩ := h
      rw [types, ← OperandTree.lower_subst_iff hlowered]
      constructor
      · intro h
        obtain ⟨_, hother, ⟨⟩⟩ := h
        exact hother
      · exact fun hother => ⟨_, hother, rfl⟩
  | binary op lhs rhs =>
      simp only [RvalueTree.lower, Outcome.bind_eq_ok, Outcome.pure_eq_ok] at h ⊢
      obtain ⟨left, hleft, right, hright, rfl⟩ := h
      rw [types, List.forall_mem_append, ← OperandTree.lower_subst_iff hleft,
        ← OperandTree.lower_subst_iff hright]
      constructor
      · intro h
        obtain ⟨_, hl, _, hr, ⟨⟩⟩ := h
        exact ⟨hl, hr⟩
      · exact fun hboth => ⟨_, hboth.1, _, hboth.2, rfl⟩
  | ref mutable slot =>
      have hsame := h
      simp only [RvalueTree.lower, Outcome.bind_eq_ok, Outcome.pure_eq_ok] at h
      obtain ⟨n, hn, rfl⟩ := h
      simp only [types, List.not_mem_nil, false_imp_iff, implies_true, iff_true]
      exact hsame
  | cast operand ty =>
      simp only [RvalueTree.lower, Outcome.bind_eq_ok, Outcome.pure_eq_ok] at h ⊢
      obtain ⟨lowered, hlowered, target, htarget, rfl⟩ := h
      rw [types, List.forall_mem_append, List.forall_mem_singleton,
        ← OperandTree.lower_subst_iff hlowered, TypeTree.agrees_iff htarget]
      constructor
      · intro h
        obtain ⟨_, hoperand, _, hty, ⟨⟩⟩ := h
        exact ⟨hoperand, hty⟩
      · exact fun hboth => ⟨_, hboth.1, _, hboth.2, rfl⟩
  | aggregate ty operands =>
      simp only [RvalueTree.lower, Outcome.bind_eq_ok, Outcome.pure_eq_ok] at h ⊢
      obtain ⟨whole, hwhole, lowered, hlowered, rfl⟩ := h
      rw [types, List.forall_mem_cons, TypeTree.agrees_iff hwhole,
        ← OperandTree.lower_all_subst_iff hlowered]
      constructor
      · intro h
        obtain ⟨_, hty, _, hoperands, ⟨⟩⟩ := h
        exact ⟨hty, hoperands⟩
      · exact fun hboth => ⟨_, hboth.1, _, hboth.2, rfl⟩

/-- A statement denotes in the second scope its instance exactly if its types do. -/
theorem StatementTree.lower_subst_iff {tree : StatementTree} {statement : Statement}
    (h : tree.lower ⟨s, count⟩ = .ok statement) :
    tree.lower ⟨s', count⟩ = .ok (statement.subst σ) ↔
      ∀ ty ∈ tree.types, ty.Agrees s s' σ := by
  cases tree with
  | assign slot rvalue =>
      simp only [StatementTree.lower, Outcome.bind_eq_ok, Outcome.pure_eq_ok] at h ⊢
      obtain ⟨n, hn, lowered, hlowered, rfl⟩ := h
      rw [types, ← RvalueTree.lower_subst_iff hlowered]
      constructor
      · intro h
        obtain ⟨_, _, _, hother, ⟨⟩⟩ := h
        exact hother
      · exact fun hother => ⟨n, hn, _, hother, rfl⟩
  | storageLive slot | storageDead slot =>
      have hsame := h
      simp only [StatementTree.lower, Outcome.bind_eq_ok, Outcome.pure_eq_ok] at h
      obtain ⟨n, hn, rfl⟩ := h
      simp only [types, List.not_mem_nil, false_imp_iff, implies_true, iff_true]
      exact hsame
  | nop =>
      obtain rfl := Outcome.pure_eq_ok.mp h
      simp only [types, List.not_mem_nil, false_imp_iff, implies_true, iff_true]
      rfl

/-- A terminator denotes in the second scope its instance exactly if its types do. -/
theorem TerminatorTree.lower_subst_iff {tree : TerminatorTree} {terminator : Terminator}
    (h : tree.lower ⟨s, count⟩ = .ok terminator) :
    tree.lower ⟨s', count⟩ = .ok (terminator.subst σ) ↔
      ∀ ty ∈ tree.types, ty.Agrees s s' σ := by
  cases tree with
  | «return» | unreachable =>
      obtain rfl := Outcome.pure_eq_ok.mp h
      simp only [types, List.not_mem_nil, false_imp_iff, implies_true, iff_true]
      rfl
  | goto target =>
      have hsame := h
      simp only [TerminatorTree.lower, Outcome.bind_eq_ok, Outcome.pure_eq_ok] at h
      obtain ⟨n, hn, rfl⟩ := h
      simp only [types, List.not_mem_nil, false_imp_iff, implies_true, iff_true]
      exact hsame
  | switch discr arms otherwise =>
      simp only [TerminatorTree.lower, Outcome.bind_eq_ok, Outcome.pure_eq_ok] at h ⊢
      obtain ⟨targets, htargets, lowered, hlowered, n, hn, rfl⟩ := h
      rw [types, ← OperandTree.lower_subst_iff hlowered]
      constructor
      · intro h
        obtain ⟨_, -, _, hother, _, -, ⟨⟩⟩ := h
        exact hother
      · exact fun hother => ⟨targets, htargets, _, hother, n, hn, rfl⟩
  | call dest func args target =>
      simp only [TerminatorTree.lower, Outcome.bind_eq_ok, Outcome.pure_eq_ok] at h ⊢
      obtain ⟨callee, hcallee, operands, hoperands, n, hn, block, hblock, rfl⟩ := h
      rw [types, List.forall_mem_append, ← OperandTree.lower_subst_iff hcallee,
        ← OperandTree.lower_all_subst_iff hoperands]
      constructor
      · intro h
        obtain ⟨_, hfunc, _, hargs, _, -, _, -, ⟨⟩⟩ := h
        exact ⟨hfunc, hargs⟩
      · exact fun hboth => ⟨_, hboth.1, _, hboth.2, n, hn, block, hblock, rfl⟩
  | drop slot target =>
      have hsame := h
      simp only [TerminatorTree.lower, Outcome.bind_eq_ok, Outcome.pure_eq_ok] at h
      obtain ⟨n, hn, block, hblock, rfl⟩ := h
      simp only [types, List.not_mem_nil, false_imp_iff, implies_true, iff_true]
      exact hsame
  | assert cond expected target =>
      simp only [TerminatorTree.lower, Outcome.bind_eq_ok, Outcome.pure_eq_ok] at h ⊢
      obtain ⟨lowered, hlowered, block, hblock, rfl⟩ := h
      rw [types, ← OperandTree.lower_subst_iff hlowered]
      constructor
      · intro h
        obtain ⟨_, hother, _, -, ⟨⟩⟩ := h
        exact hother
      · exact fun hother => ⟨_, hother, block, hblock, rfl⟩

/-! ## Declarations and blocks -/

/-- Declarations denote in the second scope their instances exactly if their types do. -/
theorem lower_locals_subst_iff {next : Nat} {trees : List LocalTree} {locals : List LocalDecl}
    (h : lowerLocals s next trees = .ok locals) :
    lowerLocals s' next trees = .ok (locals.map (LocalDecl.subst σ)) ↔
      ∀ tree ∈ trees, tree.ty.Agrees s s' σ := by
  induction trees generalizing next locals with
  | nil =>
      obtain rfl := Outcome.pure_eq_ok.mp h
      simp only [List.not_mem_nil, false_imp_iff, implies_true, iff_true]
      rfl
  | cons tree trees ih =>
      obtain ⟨hslot, ty, hty, rest, hrest, rfl⟩ := lower_locals_cons_eq_ok.mp h
      rw [lower_locals_cons_eq_ok, and_iff_right hslot, List.forall_mem_cons,
        TypeTree.agrees_iff hty, ← ih hrest]
      constructor
      · intro h
        obtain ⟨_, hother, _, hothers, ⟨⟩⟩ := h
        exact ⟨hother, hothers⟩
      · exact fun hboth => ⟨_, hboth.1, _, hboth.2, rfl⟩

/-- Blocks denote in the second scope their instances exactly if their types do. -/
theorem lower_blocks_subst_iff {next : Nat} {trees : List BlockTree} {blocks : List Block}
    (h : lowerBlocks ⟨s, count⟩ next trees = .ok blocks) :
    lowerBlocks ⟨s', count⟩ next trees = .ok (blocks.map (Block.subst σ)) ↔
      ∀ tree ∈ trees, ∀ ty ∈ tree.types, ty.Agrees s s' σ := by
  induction trees generalizing next blocks with
  | nil =>
      obtain rfl := Outcome.pure_eq_ok.mp h
      simp only [List.not_mem_nil, false_imp_iff, implies_true, iff_true]
      rfl
  | cons tree trees ih =>
      obtain ⟨hlabel, statements, hstatements, terminator, hterminator, rest, hrest, rfl⟩ :=
        lower_blocks_cons_eq_ok.mp h
      have hall : tree.statements.mapM (StatementTree.lower ⟨s', count⟩) =
            .ok (statements.map (Statement.subst σ)) ↔
          ∀ part ∈ tree.statements, ∀ ty ∈ part.types, ty.Agrees s s' σ :=
        Outcome.map_m_map_iff hstatements fun part statement hpart =>
          StatementTree.lower_subst_iff hpart
      rw [lower_blocks_cons_eq_ok, and_iff_right hlabel, List.forall_mem_cons, BlockTree.types,
        List.forall_mem_append, List.forall_mem_flatMap, ← hall,
        ← TerminatorTree.lower_subst_iff hterminator, ← ih hrest]
      constructor
      · intro h
        obtain ⟨_, hparts, _, hlast, _, hothers, ⟨⟩⟩ := h
        exact ⟨⟨hparts, hlast⟩, hothers⟩
      · exact fun hboth => ⟨_, hboth.1.1, _, hboth.1.2, _, hboth.2, rfl⟩

/-! ## Whole bodies -/

/-- Where there are enough slots, none disagrees if the first ones have the expected types. -/
theorem slot_mismatch_eq_none {fn : String} {slot : Nat} {expected : List Ty}
    {locals : List LocalDecl} (hlength : expected.length ≤ locals.length) :
    slotMismatch? fn slot expected locals = none ↔ expected <+: locals.map LocalDecl.ty := by
  induction expected generalizing slot locals with
  | nil => simp [slotMismatch?]
  | cons want expected ih =>
      cases locals with
      | nil => simp at hlength
      | cons decl locals =>
          unfold slotMismatch?
          rw [List.map_cons, List.cons_prefix_cons]
          by_cases hty : decl.ty = want
          · rw [if_pos hty, ih (by simpa using hlength)]
            simp [hty]
          · have hne : want ≠ decl.ty := fun h => hty h.symm
            rw [if_neg hty]
            simp [hne]

/-- The first slots fit the signature if their types start as the signature does. -/
theorem signature_fault_eq_none {sig : Signature} {locals : List LocalDecl} :
    signatureFault? sig locals = none ↔
      (sig.output :: sig.inputs) <+: locals.map LocalDecl.ty := by
  unfold signatureFault?
  dsimp only
  split
  next hfew =>
    simp only [reduceCtorEq, false_iff]
    intro hfront
    have hle := hfront.length_le
    rw [List.length_map] at hle
    omega
  next henough => exact slot_mismatch_eq_none (by omega)

/-- No jump is at fault if all lead to a block. -/
theorem jump_fault_eq_none {fn : String} {count index : Nat} {blocks : List Block} :
    jumpFault? fn count index blocks = none ↔
      ∀ block ∈ blocks, ∀ target ∈ block.terminator.successors, target < count := by
  induction blocks generalizing index with
  | nil => simp [jumpFault?]
  | cons block blocks ih =>
      unfold jumpFault?
      rw [List.forall_mem_cons, ← @ih (index + 1)]
      cases hjump : block.terminator.successors.find? fun target => (count : Int) ≤ target with
      | none =>
          have hbelow : ∀ target ∈ block.terminator.successors, target < count := by
            simpa using List.find?_eq_none.mp hjump
          exact (and_iff_right hbelow).symm
      | some target =>
          have hmem := List.mem_of_find?_eq_some hjump
          have hle : (count : Int) ≤ target := by simpa using List.find?_some hjump
          simp only [reduceCtorEq, false_iff, not_and]
          intro hbelow
          exact absurd (hbelow target hmem) (not_lt.mpr hle)

/-- A body is sound as a whole if its first slots have the types of the signature and every jump
leads to one of its blocks. -/
theorem body_fault_eq_none {sig : Signature} {locals : List LocalDecl} {blocks : List Block} :
    bodyFault? sig locals blocks = none ↔
      (sig.output :: sig.inputs) <+: locals.map LocalDecl.ty ∧ blocks ≠ [] ∧
        ∀ block ∈ blocks, ∀ target ∈ block.terminator.successors, target < blocks.length := by
  unfold bodyFault?
  rw [← signature_fault_eq_none]
  cases signatureFault? sig locals with
  | some fault => simp
  | none =>
      cases blocks with
      | nil => simp
      | cons block blocks => simp [jump_fault_eq_none]

/-- A result type that may be left out denotes its instance exactly if it does where it stands. -/
theorem lower_output_subst_iff {tree : Option TypeTree} {output : Ty}
    (h : lowerOutput s tree = .ok output) :
    lowerOutput s' tree = .ok (output.subst σ) ↔ ∀ ty ∈ tree.toList, ty.Agrees s s' σ := by
  cases tree with
  | none =>
      obtain rfl := Outcome.pure_eq_ok.mp h
      simp only [Option.toList_none, List.not_mem_nil, false_imp_iff, implies_true, iff_true]
      rfl
  | some tree =>
      rw [Option.toList_some, List.forall_mem_singleton]
      exact (TypeTree.agrees_iff h).symm

/-- A body that is sound for a signature is so for the substituted signature, when its declarations
and blocks are substituted. -/
theorem body_fault_subst {sig sig' : Signature} {locals : List LocalDecl} {blocks : List Block}
    (hinputs : sig'.inputs = sig.inputs.map (Ty.subst σ))
    (houtput : sig'.output = sig.output.subst σ) (h : bodyFault? sig locals blocks = none) :
    bodyFault? sig' (locals.map (LocalDecl.subst σ)) (blocks.map (Block.subst σ)) = none := by
  obtain ⟨hfront, hnonempty, hjumps⟩ := body_fault_eq_none.mp h
  refine body_fault_eq_none.mpr ⟨?_, by simpa using hnonempty, ?_⟩
  · rw [hinputs, houtput, ← List.map_cons, List.map_map]
    have hmapped := hfront.map (Ty.subst σ)
    rwa [List.map_map] at hmapped
  · -- the jumps are those of the original blocks
    intro block hblock target htarget
    obtain ⟨original, horiginal, rfl⟩ := List.mem_map.mp hblock
    rw [List.length_map]
    refine hjumps original horiginal target ?_
    rwa [← Terminator.successors_subst]

/-- The body of a signature in two scopes: it denotes in the second one what substitution makes of
it in the first exactly if each type of the signature and of the body does. -/
theorem lower_body_subst_iff {name : String} {generics : List GenericParam}
    (generics' : List GenericParam)
    {inputTrees : List TypeTree} {outputTree : Option TypeTree} {inputs : List Ty} {output : Ty}
    {tree : Spanned BodyTree} {body : Body}
    (hinputs : lowerTypes s inputTrees = .ok inputs)
    (houtput : lowerOutput s outputTree = .ok output)
    (hbody : BodyTree.lower s { name, generics, inputs, output } tree = .ok body) :
    (∃ inputs' output', lowerTypes s' inputTrees = .ok inputs' ∧
      lowerOutput s' outputTree = .ok output' ∧
      BodyTree.lower s' { name, generics := generics', inputs := inputs', output := output' } tree =
        .ok (body.subst σ)) ↔
      ∀ ty ∈ inputTrees ++ outputTree.toList ++ tree.value.types, ty.Agrees s s' σ := by
  obtain ⟨locals, blocks, hlocals, hblocks, hfault, rfl⟩ := BodyTree.lower_eq_ok.mp hbody
  have hlocalsIff : lowerLocals s' 0 tree.value.locals = .ok (locals.map (LocalDecl.subst σ)) ↔ _ :=
    lower_locals_subst_iff hlocals
  have hblocksIff : lowerBlocks ⟨s', locals.length⟩ 0 tree.value.blocks =
      .ok (blocks.map (Block.subst σ)) ↔ _ := lower_blocks_subst_iff hblocks
  rw [List.forall_mem_append, List.forall_mem_append, BodyTree.types, List.forall_mem_append,
    List.forall_mem_map, List.forall_mem_flatMap, ← hlocalsIff, ← hblocksIff,
    ← lower_types_subst_iff hinputs, ← lower_output_subst_iff houtput]
  constructor
  · intro h
    obtain ⟨inputs', output', hinputs', houtput', hdirect⟩ := h
    obtain ⟨others, rebuilt, hothers, hrebuilt, hsound, heq⟩ := BodyTree.lower_eq_ok.mp hdirect
    obtain ⟨rfl, rfl, -⟩ := Body.mk.inj heq
    -- the first slots have the types of the signature in either scope
    have hsame : output' :: inputs' = (output :: inputs).map (Ty.subst σ) := by
      have hdirectFront := (body_fault_eq_none.mp hsound).1
      have hfront := (body_fault_eq_none.mp hfault).1.map (Ty.subst σ)
      rw [List.map_map] at hdirectFront hfront
      have hlength : (output' :: inputs').length =
          ((output :: inputs).map (Ty.subst σ)).length := by
        rw [List.length_map, List.length_cons, List.length_cons, length_lower_types hinputs',
          length_lower_types hinputs]
      exact (List.prefix_of_prefix_length_le hdirectFront hfront hlength.le).eq_of_length hlength
    obtain ⟨rfl, rfl⟩ := List.cons.inj hsame
    rw [List.length_map] at hrebuilt
    exact ⟨⟨hinputs', houtput'⟩, hothers, hrebuilt⟩
  · intro h
    obtain ⟨⟨hinputs', houtput'⟩, hothers, hrebuilt⟩ := h
    refine ⟨_, _, hinputs', houtput', BodyTree.lower_eq_ok.mpr
      ⟨_, blocks.map (Block.subst σ), hothers, ?_, ?_, ?_⟩⟩
    · rw [List.length_map]
      exact hrebuilt
    · exact body_fault_subst rfl rfl hfault
    · rw [List.length_map]
      rfl

end MirAudit.Source
