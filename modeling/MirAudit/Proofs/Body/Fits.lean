import MirAudit.Body.Callee
import MirAudit.Body.Subst
import MirAudit.Proofs.Body.Walk

/-!
# Bodies that fit their declarations

A body fits if every slot in it is declared and every node is of a known kind. Substitution keeps
this, a walk of such a body is never stopped (`Body.Fits.walk`), and every operand of it has a type
(`Operand.Fits.ty`).
-/

namespace MirAudit

/-- The slot is one of the first `count` slots. -/
def SlotBelow (count : Nat) (slot : Slot) : Prop :=
  0 ≤ slot ∧ slot < count

/-- The slots of the operand are below `count`, and it is of a known kind. -/
def Operand.Fits (count : Nat) : Operand → Prop
  | .copy slot | .move slot => SlotBelow count slot
  | .const _ _ => True
  | .unknown _ => False

/-- The slots of the right-hand side are below `count`, and its nodes are of known kinds. -/
def Rvalue.Fits (count : Nat) : Rvalue → Prop
  | .use operand => operand.Fits count
  | .binary _ lhs rhs => lhs.Fits count ∧ rhs.Fits count
  | .ref slot _ => SlotBelow count slot
  | .cast operand _ => operand.Fits count
  | .aggregate _ operands => ∀ operand ∈ operands, operand.Fits count
  | .unknown _ => False

/-- The slots of the statement are below `count`, and its nodes are of known kinds. -/
def Statement.Fits (count : Nat) : Statement → Prop
  | .assign slot rvalue => SlotBelow count slot ∧ rvalue.Fits count
  | .storageLive slot | .storageDead slot => SlotBelow count slot
  | .nop => True
  | .unknown _ => False

/-- The slots of the terminator are below `count`, and its nodes are of known kinds. -/
def Terminator.Fits (count : Nat) : Terminator → Prop
  | .goto _ | .return | .unreachable => True
  | .switch discr _ _ => discr.Fits count
  | .call func args dest _ =>
    func.Fits count ∧ (∀ operand ∈ args, operand.Fits count) ∧ SlotBelow count dest
  | .drop slot _ => SlotBelow count slot
  | .assert cond _ _ => cond.Fits count
  | .unknown _ => False

/-- The statements and the terminator of a block fit `count` slots. -/
structure Block.Fits (count : Nat) (b : Block) : Prop where
  statements : ∀ statement ∈ b.statements, statement.Fits count
  terminator : b.terminator.Fits count

/-- Every block fits the declared slots. -/
def Body.Fits (b : Body) : Prop :=
  ∀ block ∈ b.blocks, block.Fits b.locals.length

/-! ## Substitution -/

section Subst

variable {count : Nat} {s : Subst}

/-- An operand fits after substitution. -/
theorem Operand.Fits.subst {operand : Operand} (h : operand.Fits count) :
    (operand.subst s).Fits count := by
  cases operand with
  | const ty value => trivial
  | copy slot | move slot | unknown kind => exact h

theorem Operand.Fits.subst_all {operands : List Operand}
    (h : ∀ operand ∈ operands, operand.Fits count) :
    ∀ operand ∈ operands.map (Operand.subst s), operand.Fits count := by
  intro operand hoperand
  obtain ⟨original, horiginal, rfl⟩ := List.mem_map.mp hoperand
  exact (h original horiginal).subst

/-- An rvalue fits after substitution. -/
theorem Rvalue.Fits.subst {rvalue : Rvalue} (h : rvalue.Fits count) :
    (rvalue.subst s).Fits count := by
  cases rvalue with
  | use operand => exact Operand.Fits.subst h
  | binary op lhs rhs => exact ⟨Operand.Fits.subst h.1, Operand.Fits.subst h.2⟩
  | ref slot mutable => exact h
  | cast operand ty =>
      have hoperand : operand.Fits count := h
      exact hoperand.subst
  | aggregate ty operands => exact Operand.Fits.subst_all h
  | unknown kind => exact h

/-- A statement fits after substitution. -/
theorem Statement.Fits.subst {statement : Statement} (h : statement.Fits count) :
    (statement.subst s).Fits count := by
  cases statement with
  | assign slot rvalue => exact ⟨h.1, h.2.subst⟩
  | storageLive slot | storageDead slot | nop | unknown kind => exact h

/-- A terminator fits after substitution. -/
theorem Terminator.Fits.subst {terminator : Terminator} (h : terminator.Fits count) :
    (terminator.subst s).Fits count := by
  cases terminator with
  | switch discr targets otherwise =>
      have hdiscr : discr.Fits count := h
      exact hdiscr.subst
  | call func args dest target => exact ⟨h.1.subst, Operand.Fits.subst_all h.2.1, h.2.2⟩
  | assert cond expected target =>
      have hcond : cond.Fits count := h
      exact hcond.subst
  | goto target | «return» | unreachable | drop slot target | unknown kind => exact h

/-- Substitution replaces types only, so a body that fits still does. -/
theorem Body.Fits.subst {b : Body} (h : b.Fits) : (b.subst s).Fits := by
  intro block hblock
  obtain ⟨original, horiginal, rfl⟩ := List.mem_map.mp hblock
  have hfits := h original horiginal
  rw [show (b.subst s).locals.length = b.locals.length from List.length_map ..]
  refine ⟨fun statement hstatement => ?_, hfits.terminator.subst⟩
  obtain ⟨plain, hplain, rfl⟩ := List.mem_map.mp hstatement
  exact (hfits.statements plain hplain).subst

end Subst

/-! ## Walks -/

section Walk

variable {count : Nat} {loc : Location}

/-- A node is walked without a stop if what lies inside it is. -/
theorem Visit.stuck_node {event : Event} {inner : List Visit}
    (h : ∀ v ∈ inner, (v.trace fun _ => true).stuck = none) :
    ((Visit.node event inner).trace fun _ => true).stuck = none := by
  rw [trace_node]
  exact stuck_trace_all.mpr h

theorem stuck_visit_place (slot : Slot) :
    ((visitPlace loc slot).trace fun _ => true).stuck = none :=
  rfl

theorem stuck_visit_ty (loc : Option Location) (ty : Ty) :
    ((visitTy loc ty).trace fun _ => true).stuck = none :=
  rfl

/-- A walk is not stuck in an operand that fits. -/
theorem Operand.Fits.visit {operand : Operand} (h : operand.Fits count) :
    ((operand.visit loc).trace fun _ => true).stuck = none := by
  cases operand with
  | copy slot | move slot => rfl
  | const ty value => rfl
  | unknown kind => exact h.elim

/-- A walk is not stuck in an rvalue that fits. -/
theorem Rvalue.Fits.visit {rvalue : Rvalue} (h : rvalue.Fits count) :
    ((rvalue.visit loc).trace fun _ => true).stuck = none := by
  refine Visit.stuck_node fun v hv => ?_
  cases rvalue with
  | use operand =>
      obtain rfl := List.mem_singleton.mp hv
      exact Operand.Fits.visit h
  | binary op lhs rhs =>
      simp only [List.mem_cons, List.not_mem_nil, or_false] at hv
      rcases hv with rfl | rfl
      · exact h.1.visit
      · exact h.2.visit
  | ref slot mutable =>
      obtain rfl := List.mem_singleton.mp hv
      exact stuck_visit_place slot
  | cast operand ty =>
      simp only [List.mem_cons, List.not_mem_nil, or_false] at hv
      rcases hv with rfl | rfl
      · have hoperand : operand.Fits count := h
        exact hoperand.visit
      · exact stuck_visit_ty _ ty
  | aggregate ty operands =>
      simp only [List.mem_cons, List.mem_map] at hv
      rcases hv with rfl | ⟨operand, hoperand, rfl⟩
      · exact stuck_visit_ty _ ty
      · exact (h operand hoperand).visit
  | unknown kind => exact h.elim

/-- A walk is not stuck in a statement that fits. -/
theorem Statement.Fits.visit {statement : Statement} (h : statement.Fits count) :
    ((statement.visit loc).trace fun _ => true).stuck = none := by
  refine Visit.stuck_node fun v hv => ?_
  cases statement with
  | assign slot rvalue =>
      simp only [List.mem_cons, List.not_mem_nil, or_false] at hv
      rcases hv with rfl | rfl
      · exact stuck_visit_place slot
      · exact h.2.visit
  | storageLive slot | storageDead slot =>
      obtain rfl := List.mem_singleton.mp hv
      exact stuck_visit_place slot
  | nop => exact absurd hv List.not_mem_nil
  | unknown kind => exact h.elim

/-- A walk is not stuck in a terminator that fits. -/
theorem Terminator.Fits.visit {terminator : Terminator} (h : terminator.Fits count) :
    ((terminator.visit loc).trace fun _ => true).stuck = none := by
  refine Visit.stuck_node fun v hv => ?_
  cases terminator with
  | goto target | «return» | unreachable => exact absurd hv List.not_mem_nil
  | switch discr targets otherwise =>
      obtain rfl := List.mem_singleton.mp hv
      have hdiscr : discr.Fits count := h
      exact hdiscr.visit
  | call func args dest target =>
      simp only [List.mem_cons, List.mem_append, List.mem_map, List.not_mem_nil, or_false] at hv
      rcases hv with rfl | ⟨operand, hoperand, rfl⟩ | rfl
      · exact h.1.visit
      · exact (h.2.1 operand hoperand).visit
      · exact stuck_visit_place dest
  | drop slot target =>
      obtain rfl := List.mem_singleton.mp hv
      exact stuck_visit_place slot
  | assert cond expected target =>
      obtain rfl := List.mem_singleton.mp hv
      have hcond : cond.Fits count := h
      exact hcond.visit
  | unknown kind => exact h.elim

/-- A walk is not stuck in a block that fits. -/
theorem Block.Fits.visit {b : Block} (h : b.Fits count) (index : Nat) :
    ((b.visit index).trace fun _ => true).stuck = none := by
  refine Visit.stuck_node fun v hv => ?_
  rcases List.mem_append.mp hv with hv | hv
  · obtain ⟨i, hi, rfl⟩ := List.mem_mapIdx.mp hv
    exact (h.statements _ (List.getElem_mem hi)).visit
  · obtain rfl := List.mem_singleton.mp hv
    exact h.terminator.visit

/-- A walk of a body that fits goes through all of it. -/
theorem Body.Fits.walk {b : Body} (h : b.Fits) : b.walk.stuck = none := by
  refine Visit.stuck_trace_all.mpr fun v hv => ?_
  rcases List.mem_append.mp hv with hv | hv
  · obtain ⟨index, hindex, rfl⟩ := List.mem_mapIdx.mp hv
    exact (h _ (List.getElem_mem hindex)).visit index
  · obtain ⟨slot, hslot, rfl⟩ := List.mem_mapIdx.mp hv
    rfl

end Walk

/-- An operand that fits the slots has a type. -/
theorem Operand.Fits.ty {locals : List LocalDecl} {operand : Operand}
    (h : operand.Fits locals.length) : ∃ ty, operand.ty locals = .ok ty := by
  have hslot : ∀ slot, SlotBelow locals.length slot →
      ∃ decl, Position.get? locals slot = some decl := by
    rintro slot ⟨hzero, hlt⟩
    obtain ⟨n, rfl⟩ := Int.eq_ofNat_of_zero_le hzero
    rw [Position.get?_natCast]
    exact ⟨_, List.getElem?_eq_getElem (Int.ofNat_lt.mp hlt)⟩
  cases operand with
  | copy slot | move slot =>
      obtain ⟨decl, hdecl⟩ := hslot slot h
      exact ⟨decl.ty, by simp only [Operand.ty, hdecl]⟩
  | const ty value => exact ⟨ty, rfl⟩
  | unknown kind => exact h.elim

/-- The operands that a body calls have types. -/
theorem Body.Fits.callee_ty {b : Body} (h : b.Fits) {block : Block} {func : Operand}
    {args : List Operand} {dest : Slot} {target : Option BlockNumber} (hblock : block ∈ b.blocks)
    (hcall : block.terminator = .call func args dest target) :
    ∃ ty, func.ty b.locals = .ok ty := by
  have hterminator := (h block hblock).terminator
  rw [hcall] at hterminator
  exact hterminator.1.ty

end MirAudit
