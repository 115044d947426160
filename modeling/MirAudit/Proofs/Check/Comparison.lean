import MirAudit.Check.Snapshot

/-!
# Which snapshots pass

A snapshot may hold anything, whatever walk has left it behind. It passes the comparison with a
body exactly if it is faithful: the same statements block by block, the same terminators, and every
declared type. Any other snapshot gives a mismatch, and never reads past the end of a list. Read
`Decides` and `compare_cases` first.
-/

namespace MirAudit

/-! ## Expectations -/

/-- What is the same as expected passes. -/
theorem expect_same_of_same {α : Type} [Comparable α] {found expected : α}
    (h : Comparable.same found expected = true) (what : String) (place : Place) :
    expectSame what found expected place = .ok () := by
  rw [expectSame, if_pos h]

theorem expect_of_true {condition : Bool} (h : condition = true) (message : String)
    (place : Place) : expect condition message place = .ok () := by
  rw [expect, if_pos h]

/-! ## Checks that decide a condition -/

/-- A check passes if a condition holds, and otherwise reports a mismatch at a place. -/
def Decides (place : Place) (P : Prop) (check : Except CheckFault Unit) : Prop :=
  check = .ok () ∧ P ∨ ∃ fault, check = .error fault ∧ ¬P ∧
    fault.kind = .mismatch ∧ fault.function = place.function ∧ fault.block = place.block

namespace Decides

variable {place : Place} {P Q : Prop} {check next : Except CheckFault Unit}

/-- A check decides every equivalent of what it decides. -/
theorem congr (h : Decides place P check) (hiff : P ↔ Q) : Decides place Q check := by
  rwa [Decides, ← hiff]

/-- Two checks one after another decide both conditions. -/
theorem bind (h : Decides place P check) (hnext : P → Decides place Q next) :
    Decides place (P ∧ Q) (check >>= fun _ => next) := by
  rcases h with ⟨rfl, hP⟩ | ⟨fault, rfl, hP, hplace⟩
  · exact (hnext hP).congr (and_iff_right hP).symm
  · exact Or.inr ⟨fault, rfl, fun hboth => hP hboth.1, hplace⟩

end Decides

/-- The expectation of the same value decides whether it is the same. -/
theorem decides_expect_same {α : Type} [Comparable α] (what : String) (found expected : α)
    (place : Place) :
    Decides place (Comparable.same found expected = true)
      (expectSame what found expected place) := by
  unfold expectSame
  split
  next h => exact Or.inl ⟨rfl, h⟩
  next h => exact Or.inr ⟨_, rfl, h, rfl, rfl, rfl⟩

/-- The expectation of a length decides whether it is that length. -/
theorem decides_expect_length {n m : Nat} (what : String) (place : Place) :
    Decides place (n = m) (expectSame what n m place) :=
  (decides_expect_same what n m place).congr beq_iff_eq

namespace Snapshot

/-! ## Faithful snapshots -/

/-- A snapshot holds what a body declares, with constants compared as values. -/
structure Faithful (s : Snapshot) (b : Body) : Prop where
  statements : s.statements.map (List.map Statement.canonical)
    = b.canonical.blocks.map Block.statements
  terminators : s.terminators.map Terminator.canonical = b.canonical.blocks.map Block.terminator
  types : ∀ decl ∈ b.locals, decl.ty ∈ s.types

/-- Under a number, a snapshot holds what some blocks declare, or neither holds anything. -/
def AgreesAt (s : Snapshot) (blocks : List Block) (index : Nat) : Prop :=
  s.statements[index]?.map (List.map Statement.canonical)
      = blocks[index]?.map (fun block => block.canonical.statements)
    ∧ s.terminators[index]?.map Terminator.canonical
      = blocks[index]?.map (fun block => block.canonical.terminator)

instance (s : Snapshot) (blocks : List Block) (index : Nat) :
    Decidable (s.AgreesAt blocks index) :=
  inferInstanceAs (Decidable (_ ∧ _))

/-- A snapshot is faithful if it agrees under every number and has seen every declared type. -/
theorem faithful_iff {s : Snapshot} {b : Body} :
    s.Faithful b ↔ (∀ index, s.AgreesAt b.blocks index) ∧ ∀ decl ∈ b.locals, decl.ty ∈ s.types := by
  constructor
  · intro h
    refine ⟨fun index => ⟨?_, ?_⟩, h.types⟩
    · simpa [Body.canonical, Function.comp_def] using congrArg (·[index]?) h.statements
    · simpa [Body.canonical, Function.comp_def] using congrArg (·[index]?) h.terminators
  · intro h
    refine ⟨List.ext_getElem? fun index => ?_, List.ext_getElem? fun index => ?_, h.2⟩
    · simpa [Body.canonical, Function.comp_def] using (h.1 index).1
    · simpa [Body.canonical, Function.comp_def] using (h.1 index).2

/-! ## Comparing one block -/

/-- Compares what was visited of a block with the block. -/
def compareBlock (name : String) (index : Nat) (block : Block) (statements : List Statement)
    (terminator : Terminator) : Except CheckFault Unit := do
  let place : Place := { function := some name, block := some index }
  expectSame "Visited statement count" statements.length block.statements.length place
  compareStatements place statements block.statements
  expectSame "Visited terminator" terminator block.terminator place

/-- Blocks are compared from the first on. -/
theorem compare_blocks_cons (name : String) (index : Nat) (block : Block) (blocks : List Block)
    (statements : List Statement) (visited : List (List Statement)) (terminator : Terminator)
    (terminators : List Terminator) :
    compareBlocks name index (block :: blocks) (statements :: visited) (terminator :: terminators)
      = compareBlock name index block statements terminator >>= fun _ =>
          compareBlocks name (index + 1) blocks visited terminators := by
  simp only [compareBlocks, compareBlock, bind_assoc]

/-- As many statements as declared are compared to the end. -/
theorem decides_compare_statements (place : Place) {visited declared : List Statement}
    (h : visited.length = declared.length) :
    Decides place (visited.map Statement.canonical = declared.map Statement.canonical)
      (compareStatements place visited declared) := by
  induction visited generalizing declared with
  | nil =>
      obtain rfl := List.length_eq_zero_iff.mp h.symm
      exact Or.inl ⟨rfl, rfl⟩
  | cons v visited ih =>
      cases declared with
      | nil => cases h
      | cons d declared =>
          refine ((decides_expect_same "Visited statement" v d place).bind fun _ =>
            ih (Nat.succ.inj h)).congr ?_
          simp [Comparable.same]

/-- The comparison of a block decides whether its statements and its terminator are the same. -/
theorem decides_compare_block (name : String) (index : Nat) (block : Block)
    (statements : List Statement) (terminator : Terminator) :
    Decides { function := some name, block := some index }
      (statements.map Statement.canonical = block.canonical.statements
        ∧ terminator.canonical = block.canonical.terminator)
      (compareBlock name index block statements terminator) := by
  refine ((decides_expect_length _ _).bind fun hlength =>
    (decides_compare_statements _ hlength).bind fun _ =>
      decides_expect_same _ terminator block.terminator _).congr ?_
  simp only [Comparable.same, decide_eq_true_eq, Block.canonical]
  -- lists that are the same have the same length
  exact and_iff_right_of_imp fun h => by simpa using congrArg List.length h.1

/-- The comparison of the locals decides whether all their types were met. -/
theorem decides_compare_locals (name : String) (types : List Ty) (slot : Nat)
    (locals : List LocalDecl) :
    Decides { function := some name } (∀ decl ∈ locals, decl.ty ∈ types)
      (compareLocals name types slot locals) := by
  induction locals generalizing slot with
  | nil => exact Or.inl ⟨rfl, by simp⟩
  | cons decl locals ih =>
      rw [compareLocals]
      split
      next h => exact (ih (slot + 1)).congr (by simp [h])
      next h => exact Or.inr ⟨_, rfl, fun hall => h (hall decl List.mem_cons_self), rfl, rfl, rfl⟩

/-! ## Comparing all blocks -/

/-- A snapshot agrees at the first block if its first statements and its first terminator are the
same. -/
theorem agrees_at_zero {block : Block} {blocks : List Block} {statements : List Statement}
    {visited : List (List Statement)} {terminator : Terminator} {terminators : List Terminator}
    {types : List Ty} :
    AgreesAt ⟨statements :: visited, terminator :: terminators, types⟩ (block :: blocks) 0
      ↔ statements.map Statement.canonical = block.canonical.statements
        ∧ terminator.canonical = block.canonical.terminator := by
  simp [AgreesAt]

/-- As many blocks as declared are compared up to the first one that does not agree. -/
theorem compare_blocks_cases (name : String) (index : Nat) (types : List Ty) {blocks : List Block}
    {visited : List (List Statement)} {terminators : List Terminator}
    (hvisited : visited.length = blocks.length) (hterminators : terminators.length = blocks.length) :
    (compareBlocks name index blocks visited terminators = .ok ()
        ∧ ∀ i, AgreesAt ⟨visited, terminators, types⟩ blocks i)
    ∨ ∃ fault i, compareBlocks name index blocks visited terminators = .error fault
        ∧ fault.kind = .mismatch ∧ fault.function = some name ∧ fault.block = some ↑(index + i)
        ∧ ¬AgreesAt ⟨visited, terminators, types⟩ blocks i
        ∧ ∀ j < i, AgreesAt ⟨visited, terminators, types⟩ blocks j := by
  induction blocks generalizing index visited terminators with
  | nil =>
      obtain rfl := List.length_eq_zero_iff.mp hvisited
      obtain rfl := List.length_eq_zero_iff.mp hterminators
      exact Or.inl ⟨rfl, fun i => ⟨rfl, rfl⟩⟩
  | cons block blocks ih =>
      obtain ⟨statements, visited, rfl⟩ := List.exists_cons_of_length_eq_add_one hvisited
      obtain ⟨terminator, terminators, rfl⟩ := List.exists_cons_of_length_eq_add_one hterminators
      rw [compare_blocks_cons]
      rcases decides_compare_block name index block statements terminator with
        ⟨hblock, hagrees⟩ | ⟨fault, hblock, hdiffers, hkind, hfunction, hplace⟩
      · rw [hblock]
        rcases ih (index + 1) (Nat.succ.inj hvisited) (Nat.succ.inj hterminators) with
          ⟨hrest, hall⟩ | ⟨fault, i, hrest, hkind, hfunction, hplace, hdiffers, hbefore⟩
        · refine Or.inl ⟨hrest, fun i => ?_⟩
          cases i with
          | zero => exact agrees_at_zero.mpr hagrees
          | succ i => exact hall i
        · refine Or.inr ⟨fault, i + 1, hrest, hkind, hfunction, ?_, hdiffers, fun j hj => ?_⟩
          · rw [hplace, Nat.add_right_comm, Nat.add_assoc]
          · cases j with
            | zero => exact agrees_at_zero.mpr hagrees
            | succ j => exact hbefore j (Nat.lt_of_succ_lt_succ hj)
      · rw [hblock]
        refine Or.inr ⟨fault, 0, rfl, hkind, hfunction, hplace, ?_, ?_⟩
        · exact fun h => hdiffers (agrees_at_zero.mp h)
        · exact fun j hj => absurd hj (Nat.not_lt_zero j)

/-! ## Comparing a body -/

/-- The snapshot observed as many blocks and terminators as the body has. -/
def Counts (s : Snapshot) (b : Body) : Prop :=
  s.statements.length = b.blocks.length ∧ s.terminators.length = b.blocks.length

/-- A faithful snapshot has the right numbers. -/
theorem Faithful.counts {s : Snapshot} {b : Body} (h : s.Faithful b) : s.Counts b := by
  constructor
  · simpa [Body.canonical] using congrArg List.length h.statements
  · simpa [Body.canonical] using congrArg List.length h.terminators

/-- Compares the counts alone. -/
def compareCounts (name : String) (b : Body) (s : Snapshot) : Except CheckFault Unit := do
  let place : Place := { function := some name }
  expectSame "Visited blocks" s.statements.length b.blocks.length place
  expectSame "Visited terminators vs. visited blocks" s.terminators.length s.statements.length
    place

/-- The comparison of the numbers decides whether they are right. -/
theorem decides_counts (name : String) (b : Body) (s : Snapshot) :
    Decides { function := some name } (s.Counts b) (s.compareCounts name b) := by
  refine ((decides_expect_length _ _).bind fun _ => decides_expect_length _ _).congr ?_
  exact and_congr_right fun h => by rw [h]

/-- A comparison is that of the numbers, of the blocks and of the types of the locals. -/
theorem compare_eq (name : String) (b : Body) (s : Snapshot) :
    s.compare name b = s.compareCounts name b >>= fun _ =>
      compareBlocks name 0 b.blocks s.statements s.terminators >>= fun _ =>
        compareLocals name s.types 0 b.locals := by
  simp only [compare, compareCounts, bind_assoc]

/-- A comparison passes a faithful snapshot, and otherwise gives a mismatch. It names the first
block that does not agree if the body and the snapshot have as many blocks, and else no block. -/
theorem compare_cases (name : String) (b : Body) (s : Snapshot) :
    (s.compare name b = .ok () ∧ s.Faithful b)
    ∨ ∃ fault, s.compare name b = .error fault ∧ ¬s.Faithful b
        ∧ fault.kind = .mismatch ∧ fault.function = some name
        ∧ ((¬s.Counts b ∨ ∀ index, s.AgreesAt b.blocks index) ∧ fault.block = none
          ∨ ∃ index : Nat, ¬s.AgreesAt b.blocks index
              ∧ (∀ earlier < index, s.AgreesAt b.blocks earlier)
              ∧ fault.block = some ↑index) := by
  rw [compare_eq, faithful_iff]
  rcases decides_counts name b s with ⟨hok, hcounts⟩ | ⟨fault, hfault, hcounts, hplace⟩
  · rw [hok]
    rcases compare_blocks_cases name 0 s.types hcounts.1 hcounts.2 with
      ⟨hblocks, hall⟩ | ⟨fault, i, hblocks, hkind, hfunction, hblock, hdiffers, hbefore⟩
    · rw [hblocks]
      rcases decides_compare_locals name s.types 0 b.locals with
        ⟨hlocals, htypes⟩ | ⟨fault, hlocals, htypes, hkind, hfunction, hblock⟩
      · exact Or.inl ⟨hlocals, hall, htypes⟩
      · exact Or.inr ⟨fault, hlocals, fun h => htypes h.2, hkind, hfunction,
          Or.inl ⟨Or.inr hall, hblock⟩⟩
    · rw [hblocks]
      refine Or.inr ⟨fault, rfl, fun h => hdiffers (h.1 i), hkind, hfunction, Or.inr ?_⟩
      exact ⟨i, hdiffers, hbefore, by rw [hblock, Nat.zero_add]⟩
  · rw [hfault, ← faithful_iff]
    refine Or.inr ⟨fault, rfl, fun h => hcounts h.counts, hplace.1, hplace.2.1, Or.inl ?_⟩
    exact ⟨Or.inl hcounts, hplace.2.2⟩

/-- A faithful snapshot passes. -/
theorem compare_of_faithful (name : String) {b : Body} {s : Snapshot} (h : s.Faithful b) :
    s.compare name b = .ok () := by
  rcases s.compare_cases name b with ⟨hok, -⟩ | ⟨_, -, hunfaithful, -⟩
  · exact hok
  · exact absurd h hunfaithful

/-! ## Comparing by number -/

/-- The observation under a number; there may be too few. -/
def observed {α : Type} (observations : List α) (index : Nat) : Except Fault α :=
  match observations[index]? with
  | some a => .ok a
  | none => .error (.crash .outOfRange)

/-- Compares one block with what was observed under its number. -/
def compareBlockAt (name : String) (s : Snapshot) (index : Nat) (block : Block) :
    Except Fault Unit := do
  let place : Place := { function := some name, block := some index }
  let visited ← observed s.statements index
  liftFault (expectSame "Visited statement count" visited.length block.statements.length place)
  forM (block.statements.zip visited) fun pair =>
    liftFault (expectSame "Visited statement" pair.2 pair.1 place)
  let terminator ← observed s.terminators index
  liftFault (expectSame "Visited terminator" terminator block.terminator place)

/-- A comparison that looks up the observations for each block by its number. -/
def compareByNumber (name : String) (b : Body) (s : Snapshot) : Except Fault Unit := do
  let place : Place := { function := some name }
  liftFault (expectSame "Visited blocks" s.statements.length b.blocks.length place)
  liftFault (expectSame "Visited terminators vs. visited blocks" s.terminators.length
    s.statements.length place)
  forM b.blocks.zipIdx fun numbered => s.compareBlockAt name numbered.2 numbered.1
  liftFault (compareLocals name s.types 0 b.locals)

theorem lift_fault_bind {α β : Type} (x : Except CheckFault α) (f : α → Except CheckFault β) :
    liftFault (x >>= f) = liftFault x >>= fun a => liftFault (f a) := by
  cases x <;> rfl

/-- Statements beyond the shorter list are not compared. -/
theorem for_m_statements (place : Place) (visited declared : List Statement) :
    (forM (declared.zip visited) fun pair =>
        liftFault (expectSame "Visited statement" pair.2 pair.1 place))
      = liftFault (compareStatements place visited declared) := by
  induction visited generalizing declared with
  | nil =>
      rw [List.zip_nil_right]
      rfl
  | cons v visited ih =>
      cases declared with
      | nil => rfl
      | cons d declared =>
          rw [List.zip_cons_cons, List.forM_cons, ih, compareStatements, lift_fault_bind]

/-- A block that is looked up by its number is compared as it is in the list. -/
theorem compare_block_at_eq (name : String) {s : Snapshot} {index : Nat} {block : Block}
    {statements : List Statement} {terminator : Terminator}
    (hstatements : s.statements[index]? = some statements)
    (hterminator : s.terminators[index]? = some terminator) :
    s.compareBlockAt name index block
      = liftFault (compareBlock name index block statements terminator) := by
  simp only [compareBlockAt, compareBlock, observed, hstatements, hterminator, lift_fault_bind,
    for_m_statements]
  rfl

theorem of_drop_eq_cons {α : Type} {as rest : List α} {a : α} {index : Nat}
    (h : as.drop index = a :: rest) : as[index]? = some a ∧ as.drop (index + 1) = rest := by
  constructor
  · simpa using congrArg List.head? h
  · simpa using congrArg List.tail h

/-- Every number below the count of the blocks has its observations. -/
theorem for_m_blocks (name : String) {s : Snapshot} {index : Nat} {blocks : List Block}
    {visited : List (List Statement)} {terminators : List Terminator}
    (hvisited : s.statements.drop index = visited)
    (hterminators : s.terminators.drop index = terminators)
    (hlength : visited.length = blocks.length) (hcount : terminators.length = blocks.length) :
    (forM (blocks.zipIdx index) fun numbered => s.compareBlockAt name numbered.2 numbered.1)
      = liftFault (compareBlocks name index blocks visited terminators) := by
  induction blocks generalizing index visited terminators with
  | nil => rfl
  | cons block blocks ih =>
      obtain ⟨statements, visited, rfl⟩ := List.exists_cons_of_length_eq_add_one hlength
      obtain ⟨terminator, terminators, rfl⟩ := List.exists_cons_of_length_eq_add_one hcount
      obtain ⟨hstatements, hvisited⟩ := of_drop_eq_cons hvisited
      obtain ⟨hterminator, hterminators⟩ := of_drop_eq_cons hterminators
      rw [List.zipIdx_cons, List.forM_cons, compare_block_at_eq name hstatements hterminator,
        ih hvisited hterminators (Nat.succ.inj hlength) (Nat.succ.inj hcount),
        compare_blocks_cons, lift_fault_bind]

/-- No number is looked up for which there is no observation. -/
theorem compare_by_number_eq (name : String) (b : Body) (s : Snapshot) :
    s.compareByNumber name b = liftFault (s.compare name b) := by
  have hsplit : s.compareByNumber name b = liftFault (s.compareCounts name b) >>= fun _ =>
      (forM b.blocks.zipIdx fun numbered => s.compareBlockAt name numbered.2 numbered.1)
        >>= fun _ => liftFault (compareLocals name s.types 0 b.locals) := by
    simp only [compareByNumber, compareCounts, lift_fault_bind, bind_assoc]
  rw [hsplit, compare_eq, lift_fault_bind]
  rcases decides_counts name b s with ⟨hok, hcounts⟩ | ⟨fault, hfault, -⟩
  · rw [hok, for_m_blocks name List.drop_zero List.drop_zero hcounts.1 hcounts.2]
    exact (lift_fault_bind _ _).symm
  · rw [hfault]
    rfl

end Snapshot

/-- A snapshot passes the comparison with a body exactly if it is faithful. Otherwise the comparison
gives a mismatch, at the first block that does not agree if the counts agree and some block does
not. It never reads past the end of a list. -/
theorem Snapshot.compare_exact (name : String) (b : Body) (s : Snapshot) :
    (s.compare name b = .ok () ↔ s.Faithful b)
    ∧ (∀ fault, s.compare name b = .error fault →
        fault.kind = .mismatch ∧ fault.function = some name)
    ∧ (s.Counts b → (∃ index, ¬s.AgreesAt b.blocks index) →
        ∃ fault, ∃ index : Nat, s.compare name b = .error fault ∧ fault.block = some ↑index
          ∧ ¬s.AgreesAt b.blocks index ∧ ∀ earlier < index, s.AgreesAt b.blocks earlier)
    ∧ s.compareByNumber name b = liftFault (s.compare name b) := by
  rcases s.compare_cases name b with
    ⟨hok, hfaithful⟩ | ⟨fault, herror, hunfaithful, hkind, hfunction, hblock⟩
  · refine ⟨by simp [hok, hfaithful], by simp [hok], ?_, s.compare_by_number_eq name b⟩
    intro _ hdiffers
    obtain ⟨index, hdiffers⟩ := hdiffers
    exact absurd ((faithful_iff.mp hfaithful).1 index) hdiffers
  · refine ⟨by simp [herror, hunfaithful], ?_, ?_, s.compare_by_number_eq name b⟩
    · intro other hother
      rw [herror] at hother
      cases hother
      exact ⟨hkind, hfunction⟩
    · intro hcounts hdiffers
      rcases hblock with ⟨hagree | hagree, -⟩ | ⟨index, hfirst, hbefore, hplace⟩
      · exact absurd hcounts hagree
      · obtain ⟨index, hdiffers⟩ := hdiffers
        exact absurd (hagree index) hdiffers
      · exact ⟨fault, index, herror, hplace, hfirst, hbefore⟩

/-- The walk of a body that saw another terminator at the end of its second block. -/
theorem Snapshot.compare_exact_replaced :
    let b : Body := { blocks := [⟨[.nop], .goto 1⟩, ⟨[], .return⟩] }
    let s : Snapshot := ⟨[[.nop], []], [.goto 1, .unreachable], []⟩
    ∃ fault, ∃ index : Nat, s.compare "main" b = .error fault ∧ fault.block = some ↑index
      ∧ ¬s.AgreesAt b.blocks index ∧ ∀ earlier < index, s.AgreesAt b.blocks earlier :=
  (Snapshot.compare_exact "main" _ _).2.2.1 ⟨rfl, rfl⟩ ⟨1, by decide⟩

end MirAudit
