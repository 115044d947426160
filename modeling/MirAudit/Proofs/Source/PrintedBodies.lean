import MirAudit.Proofs.Source.Bodies
import MirAudit.Proofs.Source.PrintedNodes

/-!
# Printed bodies are read back

The printed form of a body that was read is read as a body tree that denotes the same body:
`bodies_reread`. Declarations and blocks are numbered in order, so the lemmas about several of them
speak of the numbers from some number on.
-/

namespace MirAudit

/-- The printed body as it stands behind the header of its function: from the opening brace on. -/
def Body.braces (b : Body) : String :=
  String.intercalate "\n" ("\x7b" :: (b.renderLines ++ ["\x7d"]))

/-- A printed function is its header, which ends with the opening brace, and the printed body. -/
theorem Body.render_eq_append_braces (name : String) (b : Body) :
    ∃ front, b.renderHeader name = front ++ "\x7b" ∧ b.render name = front ++ b.braces := by
  obtain ⟨front, hfront⟩ : ∃ front, b.renderHeader name = front ++ " \x7b" := ⟨_, rfl⟩
  have hbrace : " \x7b" = " " ++ "\x7b" := by decide
  rw [hbrace, ← String.append_assoc] at hfront
  refine ⟨front ++ " ", hfront, ?_⟩
  rw [render, hfront, braces, Source.Phrase.intercalate_cons_eq,
    Source.Phrase.intercalate_cons_eq, String.append_assoc]

end MirAudit

namespace MirAudit.Source

/-! ## Traits in segments -/

/-- The paths of the traits in the segments of a block. -/
def BlockTree.traitPaths (tree : BlockTree) : List PathTree :=
  tree.statements.flatMap StatementTree.traitPaths ++ tree.terminator.traitPaths

/-- The paths of the traits in the `<Type as Trait>` segments of a body. -/
def BodyTree.traitPaths (tree : BodyTree) : List PathTree :=
  tree.locals.flatMap (fun decl => decl.ty.traitPaths) ++ tree.blocks.flatMap BlockTree.traitPaths

variable {s : Scope}

/-! ## Lines -/

/-- Some lines, each on its own. -/
def newLines (lines : List String) : String :=
  String.join (lines.map ("\n" ++ ·))

/-- Lines of two lists are written one list after the other. -/
theorem new_lines_append (lines more : List String) :
    newLines (lines ++ more) = newLines lines ++ newLines more := by
  rw [newLines, List.map_append, String.join_append]
  rfl

/-- The first line is written in front of the others. -/
theorem new_lines_cons (line : String) (lines : List String) :
    newLines (line :: lines) = "\n" ++ line ++ newLines lines := by
  rw [newLines, List.map_cons, String.join_cons]
  rfl

/-- No word runs over into the next line. -/
theorem joint_new_lines (text : String) (lines : List String) : Joint text (newLines lines) :=
  .join (List.forall_mem_map.mpr fun _ _ => .append ⟨'\n', rfl, rfl⟩)

/-! ## Declarations -/

/-- The start of a declaration says whether the slot is mutable. -/
theorem let_phrase (mutable : Bool) :
    Phrase (Syntax.kw .letKw *> Syntax.present (Syntax.kw .mutKw))
      (if mutable then "let mut " else "let ") fun found => found = mutable :=
  ((mut_phrase mutable).behind_kw .letKw).of_eq (by cases mutable <;> decide)

/-- The start of a declaration ends with a blank. -/
theorem closed_let (mutable : Bool) : Closed (if mutable then "let mut " else "let ") := by
  cases mutable <;> exact ⟨' ', rfl, rfl⟩

/-- The printed declaration of a slot declares it again. -/
theorem local_phrase {next : Nat} (hnext : Digits.Readable next) (decl : LocalDecl)
    (hty : Phrase Syntax.ty decl.ty.render fun tree => tree.lower s = .ok decl.ty) :
    Phrase Syntax.localDecl ("\n" ++ decl.renderLine next) fun again =>
      slotNumber again.slot = .ok next ∧ again.mutable = decl.mutable ∧
        again.ty.lower s = .ok decl.ty := by
  have hall : Phrase Syntax.localDecl _ fun again =>
      slotNumber again.slot = .ok next ∧ again.mutable = decl.mutable ∧
        again.ty.lower s = .ok decl.ty :=
    .map₃ (let_phrase decl.mutable) (.slot hnext) (hty.behind_colon.before_mark .semicolon (by decide))
      (.of_closed (closed_let decl.mutable)) (.of_opening (.append (.append ⟨':', rfl, rfl⟩)))
      fun _ _ _ hmutable hslot hagain => ⟨hslot, hmutable, hagain⟩
  refine (hall.blanks_before "\n\t" (by decide)).of_eq ?_
  cases hmutable : decl.mutable <;>
    simp [← String.toList_inj, Mark.text, LocalDecl.renderLine, hmutable]

/-- The printed declarations of the slots from number `next` on are declarations of these slots. -/
theorem locals_phrase {trees : List LocalTree} {next : Nat} {locals : List LocalDecl}
    (htrees : ∀ tree ∈ trees, tree.ty.Rereads s)
    (hone : ∀ tree ∈ trees, ∀ path ∈ tree.ty.traitPaths, OneName s.crates path)
    (h : lowerLocals s next trees = .ok locals) :
    Phrase (.many Syntax.localDecl)
      (newLines (locals.mapIdx fun i decl => decl.renderLine (next + i))) fun again =>
        lowerLocals s next again = .ok locals := by
  induction trees generalizing next locals with
  | nil =>
      obtain rfl := Outcome.pure_eq_ok.mp h
      exact .many_nil rfl
  | cons tree trees ih =>
      obtain ⟨hnext, ty, hty, rest, hrest, rfl⟩ := lower_locals_cons_eq_ok.mp h
      obtain ⟨htree, htrees⟩ := List.forall_mem_cons.mp htrees
      obtain ⟨hfirst, hone⟩ := List.forall_mem_cons.mp hone
      have hline := local_phrase (readable_of_slot_number hnext) ⟨ty, tree.mutable⟩ (htree hfirst ty hty)
      have hmore := ih htrees hone hrest
      have hshift : (fun i (decl : LocalDecl) => decl.renderLine (next + (i + 1))) =
          fun i decl => decl.renderLine (next + 1 + i) :=
        funext fun i => congrArg (fun n decl => LocalDecl.renderLine n decl) (by omega)
      rw [List.mapIdx_cons, new_lines_cons, hshift]
      refine .many_cons hline hmore (joint_new_lines _ _) fun again more hagain hmore => ?_
      obtain ⟨hslot, hmutable, hlower⟩ := hagain
      exact lower_locals_cons_eq_ok.mpr ⟨hslot, ty, hlower, rest, hmore, by rw [hmutable]⟩

/-! ## Blocks -/

/-- A block is read again if its statements and its terminator are. -/
theorem block_phrase {count index : Nat} (hindex : Digits.Readable index) (block : Block)
    (hstatements : ∀ statement ∈ block.statements, Phrase Syntax.statement statement.render
      fun tree => tree.lower ⟨s, count⟩ = .ok statement)
    (hterminator : Phrase Syntax.terminator block.terminator.render fun tree =>
      tree.lower ⟨s, count⟩ = .ok block.terminator) :
    Phrase Syntax.block (newLines (block.renderLines index)) fun again =>
      blockNumber again.label = .ok index ∧
        again.statements.mapM (StatementTree.lower ⟨s, count⟩) = .ok block.statements ∧
        again.terminator.lower ⟨s, count⟩ = .ok block.terminator := by
  have hlabel := ((Phrase.block_ref hindex).seq_left .colon (.of_opening ⟨':', rfl, rfl⟩)).before_mark
    .braceOpen (by decide)
  have hlines : Phrase (.many Syntax.statement)
      (newLines (block.statements.map fun statement => "\t\t" ++ statement.render))
      (List.Forall₂ (fun statement tree => tree.lower ⟨s, count⟩ = .ok statement)
        block.statements) := by
    rw [newLines, List.map_map]
    exact .many (fun statement hstatement => ((hstatements statement hstatement).blanks_before
      "\t\t" (by decide)).blanks_before "\n" (by decide))
        (Or.inl fun _ _ => .append ⟨'\n', rfl, rfl⟩)
  have hlast := ((hterminator.blanks_before "\n\t\t" (by decide)).blanks_after
    "\n\t" (by decide)).before_mark .braceClose (by decide)
  have hall : Phrase Syntax.block _ fun again => blockNumber again.label = .ok index ∧
      again.statements.mapM (StatementTree.lower ⟨s, count⟩) = .ok block.statements ∧
      again.terminator.lower ⟨s, count⟩ = .ok block.terminator :=
    .map₃ hlabel hlines hlast (.of_closed (.append (.mark _)))
      (.of_opening (.append (.append (.append ⟨'\n', rfl, rfl⟩)))) fun _ _ _ hlabel hall hlast =>
        ⟨hlabel, Outcome.map_m_eq_ok.mpr hall.flip, hlast⟩
  refine (hall.blanks_before "\n\t" (by decide)).of_eq ?_
  simp [← String.toList_inj, Mark.text, Block.renderLines, newLines]

/-- The printed blocks from number `next` on are blocks of these numbers. -/
theorem blocks_phrase {count : Nat} {trees : List BlockTree} {next : Nat} {blocks : List Block}
    (hstatements : ∀ tree ∈ trees, ∀ statement ∈ tree.statements, statement.Rereads s)
    (hterminators : ∀ tree ∈ trees, tree.terminator.Rereads s)
    (hone : ∀ tree ∈ trees, ∀ path ∈ tree.traitPaths, OneName s.crates path)
    (h : lowerBlocks ⟨s, count⟩ next trees = .ok blocks) :
    Phrase (.many Syntax.block)
      (newLines (blocks.mapIdx fun i block => block.renderLines (next + i)).flatten) fun again =>
        lowerBlocks ⟨s, count⟩ next again = .ok blocks := by
  induction trees generalizing next blocks with
  | nil =>
      obtain rfl := Outcome.pure_eq_ok.mp h
      exact .many_nil rfl
  | cons tree trees ih =>
      obtain ⟨hnext, statements, hlowered, terminator, hterminator, rest, hrest, rfl⟩ :=
        lower_blocks_cons_eq_ok.mp h
      obtain ⟨hfirst, hstatements⟩ := List.forall_mem_cons.mp hstatements
      obtain ⟨hlast, hterminators⟩ := List.forall_mem_cons.mp hterminators
      obtain ⟨hhere, hone⟩ := List.forall_mem_cons.mp hone
      simp only [BlockTree.traitPaths, List.mem_append, List.mem_flatMap] at hhere
      have hparts := Rereads.all (fun statement hmem => hfirst statement hmem count)
        (fun statement hmem path hpath => hhere path (Or.inl ⟨statement, hmem, hpath⟩)) hlowered
      have hend := hlast count (fun path hpath => hhere path (Or.inr hpath)) terminator hterminator
      have hblock := block_phrase (readable_of_block_number hnext) ⟨statements, terminator⟩ hparts hend
      have hmore := ih hstatements hterminators hone hrest
      have hshift : (fun i (block : Block) => block.renderLines (next + (i + 1))) =
          fun i block => block.renderLines (next + 1 + i) :=
        funext fun i => congrArg (fun n block => Block.renderLines n block) (by omega)
      rw [List.mapIdx_cons, List.flatten_cons, new_lines_append, hshift]
      refine .many_cons hblock hmore (joint_new_lines _ _) fun again more hagain hmore => ?_
      obtain ⟨hlabel, hagain, hlower⟩ := hagain
      exact lower_blocks_cons_eq_ok.mpr
        ⟨hlabel, statements, hagain, terminator, hlower, rest, hmore, rfl⟩

/-! ## Bodies -/

/-- The body can be read again, for any signature. -/
def BodyTree.Rereads (s : Scope) (tree : Spanned BodyTree) : Prop :=
  (∀ path ∈ tree.value.traitPaths, OneName s.crates path) → ∀ sig b,
    BodyTree.lower s sig tree = .ok b →
      Phrase Syntax.body b.braces fun again => BodyTree.lower s sig again = .ok b

/-- A body can be read again if the types of its slots and the nodes of its blocks can. -/
theorem BodyTree.rereads {tree : Spanned BodyTree}
    (hlocals : ∀ decl ∈ tree.value.locals, decl.ty.Rereads s)
    (hstatements : ∀ block ∈ tree.value.blocks, ∀ statement ∈ block.statements,
      statement.Rereads s)
    (hterminators : ∀ block ∈ tree.value.blocks, block.terminator.Rereads s) :
    BodyTree.Rereads s tree := by
  intro hone sig b h
  obtain ⟨locals, blocks, hslots, hblocks, hfault, rfl⟩ := BodyTree.lower_eq_ok.mp h
  simp only [traitPaths, List.mem_append, List.mem_flatMap] at hone
  have hdecls := locals_phrase hlocals
    (fun decl hdecl path hpath => hone path (Or.inl ⟨decl, hdecl, hpath⟩)) hslots
  have hparts := blocks_phrase hstatements hterminators
    (fun block hblock path hpath => hone path (Or.inr ⟨block, hblock, hpath⟩)) hblocks
  simp only [Nat.zero_add] at hdecls hparts
  have hopen := hdecls.behind_mark .braceOpen (by decide)
  have hclose : Phrase (.many Syntax.block <* Syntax.mark .braceClose)
      (newLines ((blocks.mapIdx Block.renderLines).flatten ++ ["\x7d"])) fun again =>
        lowerBlocks ⟨s, locals.length⟩ 0 again = .ok blocks := by
    refine ((hparts.blanks_after "\n" (by decide)).before_mark .braceClose
      (by decide)).of_eq ?_
    rw [new_lines_append, String.append_assoc]
    rfl
  have hinner : Phrase (BodyTree.mk <$> (Syntax.mark .braceOpen *> .many Syntax.localDecl)
      <*> (.many Syntax.block <* Syntax.mark .braceClose)) _ fun again =>
        lowerLocals s 0 again.locals = .ok locals ∧
          lowerBlocks ⟨s, locals.length⟩ 0 again.blocks = .ok blocks :=
    .map₂ hopen hclose (joint_new_lines _ _) fun _ _ hagain hmore => ⟨hagain, hmore⟩
  have hall : Phrase Syntax.body _ fun again => BodyTree.lower s sig again =
      .ok ⟨blocks, locals, sig.inputs.length⟩ :=
    .spanned hinner fun again hagain =>
      BodyTree.lower_eq_ok.mpr ⟨locals, blocks, hagain.1, hagain.2, hfault, rfl⟩
  refine hall.of_eq ?_
  rw [Body.braces, Phrase.intercalate_cons_eq, String.append_assoc, ← new_lines_append,
    ← List.append_assoc]
  rfl

namespace Ensures

/-- Every operand that is read can be read again. -/
theorem operand (hs : s.Printable) :
    Ensures (rereads s) Syntax.operand (OperandTree.Rereads s) :=
  .choice (.map (.seq_right (.kw .copyKw) (.token .slot)) fun _ _ => OperandTree.rereads_copy)
    (.choice (.map (.seq_right (.kw .moveKw) (.token .slot)) fun _ _ => OperandTree.rereads_move)
      (.choice
        (.map₂ (.seq_right (.kw .constKw) (.trivially _)) (.seq_right (.mark .colon) ty)
          fun _ _ _ => OperandTree.rereads_const hs)
        (.map₂ (.seq_right (.kw .fndefKw) path) type_args fun _ _ hpath hargs =>
          OperandTree.rereads_fn_item hs hpath.1 hpath.2 hargs)))

/-- Every right-hand side that is read can be read again. -/
theorem rvalue (hs : s.Printable) : Ensures (rereads s) Syntax.rvalue (RvalueTree.Rereads s) := by
  refine .choice ?binary (.choice ?ref (.choice ?cast (.choice ?aggregate ?use)))
  case binary =>
    exact .map₃ .name (.seq_right (.mark .parenOpen) (operand hs))
      (.seq_left (.seq_right (.mark .comma) (operand hs)) (.mark .parenClose))
      fun _ _ _ => RvalueTree.rereads_binary
  case ref =>
    exact .map₂ (.seq_right (.mark .ampersand) (.trivially _)) (.token .slot)
      fun _ _ _ _ => RvalueTree.rereads_ref
  case cast =>
    exact .map₂ (.seq_right (.seq_right (.kw .castKw) (.mark .parenOpen)) (operand hs))
      (.seq_left (.seq_right (.kw .asKw) ty) (.mark .parenClose)) fun _ _ =>
        RvalueTree.rereads_cast
  case aggregate =>
    exact .map₂ (.seq_right (.kw .aggregateKw) ty) (.parenthesised (operand hs)) fun _ _ =>
      RvalueTree.rereads_aggregate
  case use => exact .map (operand hs) fun _ => RvalueTree.rereads_use

/-- Every statement that is read can be read again. -/
theorem statement (hs : s.Printable) :
    Ensures (rereads s) Syntax.statement (StatementTree.Rereads s) :=
  .choice (.map₂ (.token .slot)
      (.seq_left (.seq_right (.mark .assign) (rvalue hs)) (.mark .semicolon)) fun _ _ _ =>
        StatementTree.rereads_assign)
    (.choice (.map (.trivially _) fun _ _ => StatementTree.rereads_storage_live)
      (.choice (.map (.trivially _) fun _ _ => StatementTree.rereads_storage_dead)
        (.giving (.trivially _) StatementTree.rereads_nop)))

/-- Every terminator that is read can be read again. -/
theorem terminator (hs : s.Printable) :
    Ensures (rereads s) Syntax.terminator (TerminatorTree.Rereads s) := by
  refine .choice (.map (.trivially _) fun _ _ => TerminatorTree.rereads_goto)
    (.choice (.giving (.trivially _) TerminatorTree.rereads_return)
      (.choice (.giving (.trivially _) TerminatorTree.rereads_unreachable)
        (.choice ?switch (.choice ?call (.choice ?drop ?assert)))))
  case switch =>
    exact .map₃ (.seq_left (.seq_right (.seq_right (.kw .switchIntKw) (.mark .parenOpen))
        (operand hs)) (.mark .parenClose)) (.trivially _) (.trivially _) fun _ _ _ hdiscr _ _ =>
      TerminatorTree.rereads_switch hdiscr
  case call =>
    exact .map₄ (.trivially _) (.seq_right (.mark .assign) (operand hs))
      (.parenthesised (operand hs)) (.trivially _) fun _ _ _ _ _ hfunc hargs _ =>
        TerminatorTree.rereads_call hfunc hargs
  case drop =>
    exact .map₂ (.trivially _) (.trivially _) fun _ _ _ _ => TerminatorTree.rereads_drop
  case assert =>
    exact .map₃ (.seq_right (.seq_right (.kw .assertKw) (.mark .parenOpen)) (operand hs))
      (.trivially _) (.trivially _) fun _ _ _ hcond _ _ => TerminatorTree.rereads_assert hcond

/-- The type of every declaration that is read can be read again. -/
theorem local_decl :
    Ensures (rereads s) Syntax.localDecl fun decl => decl.ty.Rereads s :=
  .map₃ (.trivially _) (.token .slot) (.seq_left (.seq_right (.mark .colon) ty) (.mark .semicolon))
    fun _ _ _ _ _ hty => hty

/-- The nodes of every block that is read can be read again. -/
theorem block (hs : s.Printable) : Ensures (rereads s) Syntax.block fun block =>
    (∀ statement ∈ block.statements, statement.Rereads s) ∧ block.terminator.Rereads s :=
  .map₃ (.trivially _) (.many (statement hs)) (.seq_left (terminator hs) (.mark .braceClose))
    fun _ _ _ _ hstatements hterminator => ⟨hstatements, hterminator⟩

/-- Every body that is read can be read again. -/
theorem body (hs : s.Printable) : Ensures (rereads s) Syntax.body (BodyTree.Rereads s) :=
  have hparts : Ensures (rereads s) (BodyTree.mk <$> (Syntax.mark .braceOpen *> .many Syntax.localDecl)
      <*> (.many Syntax.block <* Syntax.mark .braceClose)) fun tree =>
        (∀ decl ∈ tree.locals, decl.ty.Rereads s) ∧ ∀ block ∈ tree.blocks,
          (∀ statement ∈ block.statements, statement.Rereads s) ∧ block.terminator.Rereads s :=
    .map₂ (.seq_right (.mark .braceOpen) (.many local_decl))
      (.seq_left (.many (block hs)) (.mark .braceClose)) fun _ _ hlocals hblocks =>
        ⟨hlocals, hblocks⟩
  .spanned hparts fun _ h =>
    BodyTree.rereads h.1 (fun block hblock => (h.2 block hblock).1) fun block hblock =>
      (h.2 block hblock).2

end Ensures

/-- What a body that was read denotes is printed as a body that denotes the same. -/
theorem bodies_reread (hs : s.Printable) {ts : List Token} {tree : Spanned BodyTree}
    (hts : ∀ tok ∈ ts, tok.Spelled) (h : Gram.Derives Syntax.definition Syntax.body ts tree) :
    BodyTree.Rereads s tree :=
  (Ensures.body hs).derives (Ensures.definition (inherited_rereads hs)) hts h

end MirAudit.Source
