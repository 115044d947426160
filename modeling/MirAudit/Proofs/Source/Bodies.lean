import MirAudit.Proofs.Body.Fits
import MirAudit.Proofs.Source.Steps

/-!
# Bodies that were read

A body that was built from its tree names only declared slots and holds only nodes of known kinds:
`BodyTree.lower_fits`.
-/

namespace MirAudit.Source

variable {s : BodyScope}

/-- A slot is built exactly if its number can be read and is that of a declared slot. -/
theorem lower_slot_eq_ok {tok : Token} {n : Nat} :
    lowerSlot s tok = .ok n ↔ slotNumber tok = .ok n ∧ n < s.slotCount := by
  simp only [lowerSlot, Outcome.bind_eq_ok]
  constructor
  · intro h
    obtain ⟨found, hfound, h⟩ := h
    split at h
    next hlt =>
      obtain rfl := Outcome.pure_eq_ok.mp h
      exact ⟨hfound, hlt⟩
    next => exact absurd h Outcome.not_throw_eq_ok
  · intro h
    exact ⟨n, h.1, by rw [if_pos h.2]; rfl⟩

/-- A slot that was built is declared. -/
theorem lower_slot_below {tok : Token} {n : Nat} (h : lowerSlot s tok = .ok n) :
    SlotBelow s.slotCount n :=
  ⟨Int.natCast_nonneg _, Int.ofNat_lt.mpr (lower_slot_eq_ok.mp h).2⟩

theorem OperandTree.lower_fits {tree : OperandTree} {operand : Operand}
    (h : tree.lower s = .ok operand) : operand.Fits s.slotCount := by
  cases tree with
  | copy slot | move slot =>
      simp only [OperandTree.lower, Outcome.bind_eq_ok, Outcome.pure_eq_ok] at h
      obtain ⟨n, hn, rfl⟩ := h
      exact lower_slot_below hn
  | const value ty | fnItem path args =>
      simp only [OperandTree.lower, Outcome.bind_eq_ok, Outcome.pure_eq_ok] at h
      obtain ⟨_, _, _, _, rfl⟩ := h
      trivial

theorem OperandTree.lower_all_fit {trees : List OperandTree} {operands : List Operand}
    (h : trees.mapM (OperandTree.lower s) = .ok operands) :
    ∀ operand ∈ operands, operand.Fits s.slotCount := by
  intro operand hoperand
  obtain ⟨tree, _, htree⟩ := Outcome.of_mem_map_m h hoperand
  exact lower_fits htree

theorem RvalueTree.lower_fits {tree : RvalueTree} {rvalue : Rvalue}
    (h : tree.lower s = .ok rvalue) : rvalue.Fits s.slotCount := by
  cases tree with
  | use operand =>
      simp only [RvalueTree.lower, Outcome.bind_eq_ok, Outcome.pure_eq_ok] at h
      obtain ⟨lowered, hlowered, rfl⟩ := h
      exact OperandTree.lower_fits hlowered
  | binary op lhs rhs =>
      simp only [RvalueTree.lower, Outcome.bind_eq_ok, Outcome.pure_eq_ok] at h
      obtain ⟨left, hleft, right, hright, rfl⟩ := h
      exact ⟨OperandTree.lower_fits hleft, OperandTree.lower_fits hright⟩
  | ref mutable slot =>
      simp only [RvalueTree.lower, Outcome.bind_eq_ok, Outcome.pure_eq_ok] at h
      obtain ⟨n, hn, rfl⟩ := h
      exact lower_slot_below hn
  | cast operand ty =>
      simp only [RvalueTree.lower, Outcome.bind_eq_ok, Outcome.pure_eq_ok] at h
      obtain ⟨lowered, hlowered, _, _, rfl⟩ := h
      exact OperandTree.lower_fits hlowered
  | aggregate ty operands =>
      simp only [RvalueTree.lower, Outcome.bind_eq_ok, Outcome.pure_eq_ok] at h
      obtain ⟨_, _, lowered, hlowered, rfl⟩ := h
      exact OperandTree.lower_all_fit hlowered

theorem StatementTree.lower_fits {tree : StatementTree} {statement : Statement}
    (h : tree.lower s = .ok statement) : statement.Fits s.slotCount := by
  cases tree with
  | assign slot rvalue =>
      simp only [StatementTree.lower, Outcome.bind_eq_ok, Outcome.pure_eq_ok] at h
      obtain ⟨n, hn, lowered, hlowered, rfl⟩ := h
      exact ⟨lower_slot_below hn, RvalueTree.lower_fits hlowered⟩
  | storageLive slot | storageDead slot =>
      simp only [StatementTree.lower, Outcome.bind_eq_ok, Outcome.pure_eq_ok] at h
      obtain ⟨n, hn, rfl⟩ := h
      exact lower_slot_below hn
  | nop =>
      obtain rfl := Outcome.pure_eq_ok.mp h
      trivial

theorem TerminatorTree.lower_fits {tree : TerminatorTree} {terminator : Terminator}
    (h : tree.lower s = .ok terminator) : terminator.Fits s.slotCount := by
  cases tree with
  | goto target =>
      obtain ⟨_, -, h⟩ := Outcome.bind_eq_ok.mp h
      obtain rfl := Outcome.pure_eq_ok.mp h
      trivial
  | «return» | unreachable =>
      obtain rfl := Outcome.pure_eq_ok.mp h
      trivial
  | switch discr arms otherwise =>
      simp only [TerminatorTree.lower, Outcome.bind_eq_ok, Outcome.pure_eq_ok] at h
      obtain ⟨_, -, lowered, hlowered, _, -, rfl⟩ := h
      exact OperandTree.lower_fits hlowered
  | call dest func args target =>
      simp only [TerminatorTree.lower, Outcome.bind_eq_ok, Outcome.pure_eq_ok] at h
      obtain ⟨callee, hcallee, operands, hoperands, n, hn, _, -, rfl⟩ := h
      exact ⟨OperandTree.lower_fits hcallee, OperandTree.lower_all_fit hoperands,
        lower_slot_below hn⟩
  | drop slot target =>
      simp only [TerminatorTree.lower, Outcome.bind_eq_ok, Outcome.pure_eq_ok] at h
      obtain ⟨n, hn, _, -, rfl⟩ := h
      exact lower_slot_below hn
  | assert cond expected target =>
      simp only [TerminatorTree.lower, Outcome.bind_eq_ok, Outcome.pure_eq_ok] at h
      obtain ⟨lowered, hlowered, _, -, rfl⟩ := h
      exact OperandTree.lower_fits hlowered

/-- What is numbered is built exactly if its number is the expected one. -/
theorem numbered_eq_ok {α : Type} {number : Load Nat} {next : Nat} {error : LoadError} {x : Load α}
    {a : α} :
    (do
      let n ← number
      if n ≠ next then throw error else x) = .ok a ↔ number = .ok next ∧ x = .ok a := by
  rw [Outcome.bind_eq_ok]
  constructor
  · intro h
    obtain ⟨n, hn, h⟩ := h
    split at h
    next => exact absurd h Outcome.not_throw_eq_ok
    next heq =>
      obtain rfl := not_not.mp heq
      exact ⟨hn, h⟩
  · intro h
    exact ⟨next, h.1, by rw [if_neg (not_not_intro rfl), h.2]⟩

/-- Declarations are built exactly if the first has the next number and the others follow it. -/
theorem lower_locals_cons_eq_ok {scope : Scope} {next : Nat} {tree : LocalTree}
    {trees : List LocalTree} {locals : List LocalDecl} :
    lowerLocals scope next (tree :: trees) = .ok locals ↔
      slotNumber tree.slot = .ok next ∧ ∃ ty, tree.ty.lower scope = .ok ty ∧
        ∃ rest, lowerLocals scope (next + 1) trees = .ok rest ∧
          { ty, mutable := tree.mutable } :: rest = locals := by
  rw [lowerLocals, numbered_eq_ok]
  simp only [Outcome.bind_eq_ok, Outcome.pure_eq_ok]

/-- Blocks are built exactly if the first has the next number and the others follow it. -/
theorem lower_blocks_cons_eq_ok {next : Nat} {tree : BlockTree} {trees : List BlockTree}
    {blocks : List Block} :
    lowerBlocks s next (tree :: trees) = .ok blocks ↔
      blockNumber tree.label = .ok next ∧
        ∃ statements, tree.statements.mapM (StatementTree.lower s) = .ok statements ∧
          ∃ terminator, tree.terminator.lower s = .ok terminator ∧
            ∃ rest, lowerBlocks s (next + 1) trees = .ok rest ∧
              { statements, terminator } :: rest = blocks := by
  rw [lowerBlocks, numbered_eq_ok]
  simp only [Outcome.bind_eq_ok, Outcome.pure_eq_ok]

/-- Every block that was built fits the declared slots. -/
theorem lower_blocks_fit {next : Nat} {trees : List BlockTree} {blocks : List Block}
    (h : lowerBlocks s next trees = .ok blocks) : ∀ block ∈ blocks, block.Fits s.slotCount := by
  induction trees generalizing next blocks with
  | nil =>
      obtain rfl := Outcome.pure_eq_ok.mp h
      simp
  | cons tree trees ih =>
      obtain ⟨-, statements, hstatements, terminator, hterminator, rest, hrest, rfl⟩ :=
        lower_blocks_cons_eq_ok.mp h
      intro block hblock
      rcases List.mem_cons.mp hblock with rfl | hblock
      · refine ⟨fun statement hstatement => ?_, TerminatorTree.lower_fits hterminator⟩
        obtain ⟨part, _, hpart⟩ := Outcome.of_mem_map_m hstatements hstatement
        exact StatementTree.lower_fits hpart
      · exact ih hrest block hblock

/-- A body is built exactly if its parts are and nothing is wrong with it as a whole. -/
theorem BodyTree.lower_eq_ok {scope : Scope} {sig : Signature} {tree : Spanned BodyTree}
    {body : Body} : BodyTree.lower scope sig tree = .ok body ↔
      ∃ locals blocks, lowerLocals scope 0 tree.value.locals = .ok locals ∧
        lowerBlocks ⟨scope, locals.length⟩ 0 tree.value.blocks = .ok blocks ∧
        bodyFault? sig locals blocks = none ∧
        { blocks, locals, argCount := sig.inputs.length } = body := by
  simp only [BodyTree.lower, Outcome.bind_eq_ok]
  constructor
  · intro h
    obtain ⟨locals, hlocals, blocks, hblocks, h⟩ := h
    split at h
    next => exact absurd h Outcome.not_throw_eq_ok
    next hfault => exact ⟨locals, blocks, hlocals, hblocks, hfault, Outcome.pure_eq_ok.mp h⟩
  · intro h
    obtain ⟨locals, blocks, hlocals, hblocks, hfault, rfl⟩ := h
    refine ⟨locals, hlocals, blocks, hblocks, ?_⟩
    rw [hfault]
    rfl

/-- A body that was built from its tree fits its declarations. -/
theorem BodyTree.lower_fits {scope : Scope} {sig : Signature} {tree : Spanned BodyTree}
    {body : Body} (h : BodyTree.lower scope sig tree = .ok body) : body.Fits := by
  obtain ⟨locals, blocks, _, hblocks, _, rfl⟩ := BodyTree.lower_eq_ok.mp h
  exact lower_blocks_fit hblocks

end MirAudit.Source
