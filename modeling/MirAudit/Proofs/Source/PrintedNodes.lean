import MirAudit.Body.Printer
import MirAudit.Proofs.Source.Bodies
import MirAudit.Proofs.Source.PrintedTypes

/-!
# Printed nodes are read back

What an operand, a right-hand side, a statement or a terminator that was read denotes is printed as
a text that is read as a tree that denotes the same, whatever slots are declared. There is one lemma
for each form of these nodes.
-/

namespace MirAudit.Source

/-! ## Traits in segments -/

/-- The paths of the traits in the segments of an operand. -/
def OperandTree.traitPaths : OperandTree → List PathTree
  | .copy _ | .move _ => []
  | .const _ ty => ty.traitPaths
  | .fnItem path args => pathTraitPaths path ++ traitPathsAll args

/-- The paths of the traits in the segments of a right-hand side. -/
def RvalueTree.traitPaths : RvalueTree → List PathTree
  | .use operand => operand.traitPaths
  | .binary _ lhs rhs => lhs.traitPaths ++ rhs.traitPaths
  | .ref _ _ => []
  | .cast operand ty => operand.traitPaths ++ ty.traitPaths
  | .aggregate ty operands => ty.traitPaths ++ operands.flatMap OperandTree.traitPaths

/-- The paths of the traits in the segments of a statement. -/
def StatementTree.traitPaths : StatementTree → List PathTree
  | .assign _ rvalue => rvalue.traitPaths
  | .storageLive _ | .storageDead _ | .nop => []

/-- The paths of the traits in the segments of a terminator. -/
def TerminatorTree.traitPaths : TerminatorTree → List PathTree
  | .switch discr _ _ => discr.traitPaths
  | .call _ func args _ => func.traitPaths ++ args.flatMap OperandTree.traitPaths
  | .assert cond _ _ => cond.traitPaths
  | .goto _ | .return | .unreachable | .drop _ _ => []

attribute [local simp] Keyword.text Mark.text Rvalue.render Statement.render Terminator.render

/-! ## Reading again -/

/-- The operand can be read again, whatever slots are declared. -/
def OperandTree.Rereads (s : Scope) (tree : OperandTree) : Prop :=
  ∀ count, Source.Rereads s.crates Syntax.operand traitPaths (lower ⟨s, count⟩) Operand.render tree

/-- The right-hand side can be read again, whatever slots are declared. -/
def RvalueTree.Rereads (s : Scope) (tree : RvalueTree) : Prop :=
  ∀ count, Source.Rereads s.crates Syntax.rvalue traitPaths (lower ⟨s, count⟩) Rvalue.render tree

/-- The statement can be read again, whatever slots are declared. -/
def StatementTree.Rereads (s : Scope) (tree : StatementTree) : Prop :=
  ∀ count, Source.Rereads s.crates Syntax.statement traitPaths (lower ⟨s, count⟩) Statement.render
    tree

/-- The terminator can be read again, whatever slots are declared. -/
def TerminatorTree.Rereads (s : Scope) (tree : TerminatorTree) : Prop :=
  ∀ count, Source.Rereads s.crates Syntax.terminator traitPaths (lower ⟨s, count⟩) Terminator.render
    tree

variable {s : Scope}

/-! ## Slots and literals -/

/-- A slot that was read is printed as a phrase of the same slot. -/
theorem slot_phrase {s : BodyScope} {tok : Token} {n : Nat} (h : lowerSlot s tok = .ok n) :
    Phrase (.token .slot) (renderSlot n) fun again => lowerSlot s again = .ok n :=
  let ⟨hnumber, hbelow⟩ := lower_slot_eq_ok.mp h
  (Phrase.slot (readable_of_slot_number hnumber)).imp fun _ hagain =>
    lower_slot_eq_ok.mpr ⟨hagain, hbelow⟩

/-- A truth value is printed as its keyword. -/
theorem bool_phrase (value : Bool) :
    Phrase Syntax.bool (if value then "true" else "false") fun found => found = value := by
  cases value with
  | false => exact .right ((Phrase.kw .falseKw).giving rfl)
  | true => exact .left ((Phrase.kw .trueKw).giving rfl)

/-- A literal that was read is printed as a phrase of the same value. -/
theorem literal_phrase {tree : LiteralTree} {value : Const} (h : tree.lower = .ok value) :
    Phrase Syntax.literal value.render fun again => again.lower = .ok value := by
  cases tree with
  | int tok =>
      obtain ⟨n, hn, hvalue⟩ := Outcome.bind_eq_ok.mp h
      obtain rfl := Outcome.pure_eq_ok.mp hvalue
      refine .left (.map (.integer (readable_of_integer_value hn)) fun again hagain => ?_)
      rw [LiteralTree.lower, hagain]
      rfl
  | bool b =>
      obtain rfl := Outcome.pure_eq_ok.mp h
      exact .right (.left (.map (bool_phrase b) fun _ hfound =>
        congrArg (fun b => Except.ok (Const.bool b)) hfound))
  | str tok =>
      rw [LiteralTree.lower] at h
      cases hdecode : Literal.decode tok.text with
      | none =>
          rw [hdecode] at h
          exact absurd h Outcome.not_throw_eq_ok
      | some text =>
          rw [hdecode] at h
          obtain rfl := Outcome.pure_eq_ok.mp h
          refine .right (.right (.left (.map (.string (Literal.join_pairs_of_decode hdecode))
            fun again hagain => ?_)))
          rw [LiteralTree.lower, hagain]
          rfl
  | unit =>
      obtain rfl := Outcome.pure_eq_ok.mp h
      have hclose : Phrase (Syntax.mark .parenOpen *> Syntax.mark .parenClose) ("(" ++ ")")
          fun _ => True := (Phrase.mark .parenClose (by decide)).behind_mark .parenOpen (by decide)
      exact .right (.right (.right (hclose.giving rfl)))

/-! ## Operands -/

/-- The type of a function item is written as the function item is. -/
theorem derives_fn_item {ts : List Token} {path : PathTree} {args : List TypeTree}
    (h : Gram.Derives Syntax.definition Syntax.ty ts (.fnDef path args)) :
    Gram.Derives Syntax.definition (OperandTree.fnItem <$> (Syntax.kw .fndefKw *> Syntax.path)
      <*> Syntax.typeArgs) ts (.fnItem path args) := by
  rcases Gram.derives_choice_iff.mp (Gram.derives_rule_iff.mp h) with hparen | h
  · obtain ⟨_, _, _, -, -, hrest⟩ := Gram.derives_seq_right_iff.mp hparen
    rcases Gram.derives_choice_iff.mp hrest with hunit | htuple
    · cases (Gram.derives_giving_iff.mp hunit).2
    · obtain ⟨_, _, _, _, -, hbuild, -, happly⟩ := Gram.derives_ap_iff.mp htuple
      obtain ⟨_, -, rfl⟩ := Gram.derives_map_iff.mp hbuild
      cases happly
  rcases Gram.derives_choice_iff.mp h with href | h
  · obtain ⟨_, _, _, _, -, hbuild, -, happly⟩ := Gram.derives_ap_iff.mp href
    obtain ⟨_, -, rfl⟩ := Gram.derives_map_iff.mp hbuild
    cases happly
  rcases Gram.derives_choice_iff.mp h with hptr | h
  · obtain ⟨_, _, _, _, -, hbuild, -, happly⟩ := Gram.derives_ap_iff.mp hptr
    obtain ⟨_, -, rfl⟩ := Gram.derives_map_iff.mp hbuild
    cases happly
  rcases Gram.derives_choice_iff.mp h with hdef | h
  · obtain ⟨us, vs, _, _, rfl, hbuild, hargs, happly⟩ := Gram.derives_ap_iff.mp hdef
    obtain ⟨_, hpath, rfl⟩ := Gram.derives_map_iff.mp hbuild
    cases happly
    exact Gram.derives_ap_iff.mpr
      ⟨us, vs, _, _, rfl, Gram.derives_map_iff.mpr ⟨_, hpath, rfl⟩, hargs, rfl⟩
  rcases Gram.derives_choice_iff.mp h with hnever | hnamed
  · cases (Gram.derives_giving_iff.mp hnever).2
  · obtain ⟨_, -, hbuild⟩ := Gram.derives_map_iff.mp hnamed
    cases hbuild

/-- Only the type of a function item denotes one. -/
theorem eq_fn_def_of_lower (hs : s.Printable) {tree : TypeTree} {callee : DefId} {tys : List Ty}
    (h : tree.lower s = .ok (.fnDef callee tys)) : ∃ path args, tree = .fnDef path args := by
  cases tree with
  | fnDef path args => exact ⟨path, args, rfl⟩
  | named region path args =>
      obtain ⟨_, _, -, -, ⟨name, -, hsingle, -⟩ | ⟨-, hadt⟩⟩ := named_lower_eq_ok.mp h
      · rcases Scope.single_eq_some hsingle with hbound | ⟨-, hscalar⟩
        · cases hs.bound name _ hbound
        · cases hscalar
      · cases hadt
  | unit | never => cases h
  | tuple elems | ref mutable pointee =>
      obtain ⟨_, -, ⟨⟩⟩ := Outcome.bind_eq_ok.mp h
  | fnPtr inputs output =>
      obtain ⟨_, -, h⟩ := Outcome.bind_eq_ok.mp h
      obtain ⟨_, -, ⟨⟩⟩ := Outcome.bind_eq_ok.mp h

/-- A printed type of a function item is also the printed function item. -/
theorem fn_item_phrase (hs : s.Printable) {text : String} {callee : DefId} {tys : List Ty}
    (h : Phrase Syntax.ty text fun tree => tree.lower s = .ok (.fnDef callee tys)) :
    Phrase (OperandTree.fnItem <$> (Syntax.kw .fndefKw *> Syntax.path) <*> Syntax.typeArgs) text
      fun tree => ∀ count, tree.lower ⟨s, count⟩ = .ok (.const (.fnDef callee tys) .unit) := by
  obtain ⟨ts, tree, hreads, hderives, hlower⟩ := h
  obtain ⟨path, args, rfl⟩ := eq_fn_def_of_lower hs hlower
  refine ⟨ts, .fnItem path args, hreads, derives_fn_item hderives, fun count => ?_⟩
  simp only [TypeTree.lower, Outcome.bind_eq_ok, Outcome.pure_eq_ok] at hlower
  obtain ⟨texts, htexts, found, hfound, hty⟩ := hlower
  rw [OperandTree.lower, lowerDef, htexts, hfound, ← hty]
  rfl

namespace OperandTree

/-- Copies of slots. -/
theorem rereads_copy {slot : Token} : (OperandTree.copy slot).Rereads s := by
  intro count _ operand h
  simp only [lower, Outcome.bind_eq_ok, Outcome.pure_eq_ok] at h
  obtain ⟨n, hn, rfl⟩ := h
  refine .left (.map ((slot_phrase hn).behind_kw .copyKw) fun again hagain => ?_)
  rw [lower, hagain]
  rfl

/-- Moves of slots. -/
theorem rereads_move {slot : Token} : (OperandTree.move slot).Rereads s := by
  intro count _ operand h
  simp only [lower, Outcome.bind_eq_ok, Outcome.pure_eq_ok] at h
  obtain ⟨n, hn, rfl⟩ := h
  refine .right (.left (.map ((slot_phrase hn).behind_kw .moveKw) fun again hagain => ?_))
  rw [lower, hagain]
  rfl

/-- A constant other than a function item is printed with its type. -/
theorem render_const {ty : Ty} {value : Const}
    (h : ∀ callee tys, ty = .fnDef callee tys → value ≠ .unit) :
    (Operand.const ty value).render = "const " ++ value.render ++ ": " ++ ty.render := by
  cases ty with
  | fnDef callee tys =>
      cases value with
      | unit => exact (h callee tys rfl rfl).elim
      | int | bool | str => rfl
  | scalar | adt | ref | tuple | param | fnPtr => rfl

/-- A constant with its type is read again if both are. -/
theorem constant_phrase {ty : Ty} {value : Const} (count : Nat)
    (hvalue : Phrase Syntax.literal value.render fun again => again.lower = .ok value)
    (hty : Phrase Syntax.ty ty.render fun again => again.lower s = .ok ty) :
    Phrase Syntax.operand ("const " ++ value.render ++ ": " ++ ty.render) fun again =>
      again.lower ⟨s, count⟩ = .ok (.const ty value) := by
  have hall : Phrase (OperandTree.const <$> (Syntax.kw .constKw *> Syntax.literal)
      <*> (Syntax.mark .colon *> Syntax.ty)) _ fun again =>
        again.lower ⟨s, count⟩ = .ok (.const ty value) :=
    .map₂ (hvalue.behind_kw .constKw) hty.behind_colon (.of_opening (.append ⟨':', rfl, rfl⟩))
      fun again found hagain hfound => by
        rw [lower, hfound, hagain]
        rfl
  refine (Phrase.right (.right (.left hall))).of_eq ?_
  simp [← String.toList_inj]

/-- Constants with their types. -/
theorem rereads_const (hs : s.Printable) {value : LiteralTree} {ty : TypeTree}
    (hty : ty.Rereads s) : (OperandTree.const value ty).Rereads s := by
  intro count hone operand h
  simp only [lower, Outcome.bind_eq_ok, Outcome.pure_eq_ok] at h
  obtain ⟨lowered, hlowered, const, hconst, rfl⟩ := h
  have htype := hty hone lowered hlowered
  have hliteral := literal_phrase hconst
  by_cases hitem : ∃ callee tys, lowered = .fnDef callee tys ∧ const = .unit
  · obtain ⟨callee, tys, rfl, rfl⟩ := hitem
    exact .right (.right (.right ((fn_item_phrase hs htype).imp fun _ hagain => hagain count)))
  · rw [render_const fun callee tys hty hconst => hitem ⟨callee, tys, hty, hconst⟩]
    exact constant_phrase count hliteral htype

/-- Functions as operands. -/
theorem rereads_fn_item (hs : s.Printable) {path : PathTree} {args : List TypeTree}
    (hne : path ≠ []) (hpath : ∀ segment ∈ path, segment.Rereads s)
    (hargs : ∀ arg ∈ args, arg.Rereads s) : (OperandTree.fnItem path args).Rereads s := by
  intro count hone operand h
  simp only [lower, Outcome.bind_eq_ok, Outcome.pure_eq_ok] at h
  obtain ⟨callee, hcallee, tys, htys, rfl⟩ := h
  have hlower : (TypeTree.fnDef path args).lower s = .ok (.fnDef callee tys) := by
    obtain ⟨texts, htexts, hdef⟩ := Outcome.bind_eq_ok.mp hcallee
    rw [TypeTree.lower, htexts, htys, ← Except.ok.inj hdef]
    rfl
  have htype := TypeTree.rereads_fn_def hs hne hpath hargs hone _ hlower
  exact .right (.right (.right ((fn_item_phrase hs htype).imp fun _ hagain => hagain count)))

end OperandTree

/-- Operands in parentheses are read again if each is. -/
theorem operands_phrase {count : Nat} {operands : List Operand}
    (h : ∀ operand ∈ operands, Phrase Syntax.operand operand.render fun again =>
      again.lower ⟨s, count⟩ = .ok operand) :
    Phrase (Syntax.parenthesised Syntax.operand) ("(" ++ renderOperands operands ++ ")")
      fun trees => trees.mapM (OperandTree.lower ⟨s, count⟩) = .ok operands :=
  (Phrase.parenthesised h).imp fun _ htrees => Outcome.map_m_eq_ok.mpr htrees.flip

/-! ## Right-hand sides -/

namespace RvalueTree

/-- Operands on their own. -/
theorem rereads_use {operand : OperandTree} (h : operand.Rereads s) :
    (RvalueTree.use operand).Rereads s := by
  intro count hone rvalue hlower
  simp only [lower, Outcome.bind_eq_ok, Outcome.pure_eq_ok] at hlower
  obtain ⟨lowered, hlowered, rfl⟩ := hlower
  refine .right (.right (.right (.right (.map (h count hone lowered hlowered)
    fun again hagain => ?_))))
  rw [lower, hagain]
  rfl

/-- Two operands under an operator that is spelled as a name. -/
theorem rereads_binary {op : Token} {lhs rhs : OperandTree} (hop : IsName op.text)
    (hlhs : lhs.Rereads s) (hrhs : rhs.Rereads s) : (RvalueTree.binary op lhs rhs).Rereads s := by
  intro count hone rvalue hlower
  simp only [lower, Outcome.bind_eq_ok, Outcome.pure_eq_ok] at hlower
  obtain ⟨left, hleft, right, hright, rfl⟩ := hlower
  simp only [traitPaths, List.mem_append] at hone
  have hname : IsName op.string.toList := by rwa [Token.string, String.toList_ofList]
  have hfirst := hlhs count (fun path hpath => hone path (Or.inl hpath)) left hleft
  have hsecond := hrhs count (fun path hpath => hone path (Or.inr hpath)) right hright
  have hall : Phrase (RvalueTree.binary <$> .token .name <*> (Syntax.mark .parenOpen *> Syntax.operand)
      <*> (Syntax.mark .comma *> Syntax.operand <* Syntax.mark .parenClose)) _ fun again =>
        again.lower ⟨s, count⟩ = .ok (.binary op.string left right) :=
    .map₃ (.name hname) (hfirst.behind_mark .parenOpen (by decide))
      ((hsecond.blank_before.behind_mark .comma (by decide)).before_mark .parenClose (by decide))
      (.of_opening (.append (.mark _))) (.of_opening (.append (.append (.mark _))))
      fun tok again found htok hagain hfound => by
        rw [lower, hagain, hfound, ← htok]
        rfl
  refine (Phrase.left hall).of_eq ?_
  simp [← String.toList_inj]

/-- References to slots. -/
theorem rereads_ref {mutable : Bool} {slot : Token} : (RvalueTree.ref mutable slot).Rereads s := by
  intro count _ rvalue hlower
  simp only [lower, Outcome.bind_eq_ok, Outcome.pure_eq_ok] at hlower
  obtain ⟨n, hn, rfl⟩ := hlower
  have hall : Phrase (RvalueTree.ref <$> (Syntax.mark .ampersand *> Syntax.present (Syntax.kw .mutKw))
      <*> .token .slot) ((if mutable then "&mut " else "&") ++ renderSlot n) fun again =>
        again.lower ⟨s, count⟩ = .ok (.ref n mutable) :=
    .map₂ (ampersand_phrase mutable) (slot_phrase hn) (.of_closed (closed_ampersand mutable))
      fun found again hfound hagain => by
        rw [hfound, lower, hagain]
        rfl
  exact .right (.left hall)

/-- Operands at another type. -/
theorem rereads_cast {operand : OperandTree} {ty : TypeTree} (hoperand : operand.Rereads s)
    (hty : ty.Rereads s) : (RvalueTree.cast operand ty).Rereads s := by
  intro count hone rvalue hlower
  simp only [lower, Outcome.bind_eq_ok, Outcome.pure_eq_ok] at hlower
  obtain ⟨lowered, hlowered, target, htarget, rfl⟩ := hlower
  simp only [traitPaths, List.mem_append] at hone
  have hfirst := hoperand count (fun path hpath => hone path (Or.inl hpath)) lowered hlowered
  have hsecond := hty (fun path hpath => hone path (Or.inr hpath)) target htarget
  have hall : Phrase (RvalueTree.cast <$> (Syntax.kw .castKw *> Syntax.mark .parenOpen *> Syntax.operand)
      <*> (Syntax.kw .asKw *> Syntax.ty <* Syntax.mark .parenClose)) _ fun again =>
        again.lower ⟨s, count⟩ = .ok (.cast lowered target) :=
    .map₂ ((Phrase.kw_mark .castKw .parenOpen (by decide)).seq_right hfirst
        (.of_closed (.append (.mark _))))
      ((hsecond.behind_kw .asKw).before_mark .parenClose (by decide)).blank_before
      (.of_opening (.append .blank)) fun again found hagain hfound => by
        rw [lower, hagain, hfound]
        rfl
  refine (Phrase.right (.right (.left hall))).of_eq ?_
  simp [← String.toList_inj]

/-- Values of a type from the operands of its parts. -/
theorem rereads_aggregate {ty : TypeTree} {operands : List OperandTree} (hty : ty.Rereads s)
    (hoperands : ∀ operand ∈ operands, operand.Rereads s) :
    (RvalueTree.aggregate ty operands).Rereads s := by
  intro count hone rvalue hlower
  simp only [lower, Outcome.bind_eq_ok, Outcome.pure_eq_ok] at hlower
  obtain ⟨target, htarget, lowered, hlowered, rfl⟩ := hlower
  simp only [traitPaths, List.mem_append, List.mem_flatMap] at hone
  have hfirst := hty (fun path hpath => hone path (Or.inl hpath)) target htarget
  have hparts := Rereads.all (fun operand hoperand => hoperands operand hoperand count)
    (fun operand hoperand path hpath => hone path (Or.inr ⟨operand, hoperand, hpath⟩)) hlowered
  have hall : Phrase (RvalueTree.aggregate <$> (Syntax.kw .aggregateKw *> Syntax.ty)
      <*> Syntax.parenthesised Syntax.operand) _ fun again =>
        again.lower ⟨s, count⟩ = .ok (.aggregate target lowered) :=
    .map₂ (hfirst.behind_kw .aggregateKw) (operands_phrase hparts)
      (.of_opening (.append (.append (.mark .parenOpen)))) fun again found hagain hfound => by
        rw [lower, hagain, hfound]
        rfl
  refine (Phrase.right (.right (.right (.left hall)))).of_eq ?_
  simp [← String.toList_inj]

end RvalueTree

/-! ## Statements -/

/-- A slot in parentheses behind a word. -/
theorem storage_phrase {count n : Nat} {slot : Token} (k : Keyword)
    (h : lowerSlot ⟨s, count⟩ slot = .ok n) :
    Phrase (Syntax.kw k *> Syntax.mark .parenOpen *> .token .slot <* Syntax.mark .parenClose)
      (k.text ++ "(" ++ renderSlot n ++ ")") fun again => lowerSlot ⟨s, count⟩ again = .ok n :=
  ((Phrase.kw_mark k .parenOpen (by decide)).seq_right (slot_phrase h)
    (.of_closed (.append (.mark _)))).before_mark .parenClose (by decide)

namespace StatementTree

/-- Assignments to slots. -/
theorem rereads_assign {slot : Token} {rvalue : RvalueTree} (h : rvalue.Rereads s) :
    (StatementTree.assign slot rvalue).Rereads s := by
  intro count hone statement hlower
  simp only [lower, Outcome.bind_eq_ok, Outcome.pure_eq_ok] at hlower
  obtain ⟨n, hn, lowered, hlowered, rfl⟩ := hlower
  have hvalue := h count hone lowered hlowered
  have hall : Phrase (StatementTree.assign <$> .token .slot
      <*> (Syntax.mark .assign *> Syntax.rvalue <* Syntax.mark .semicolon)) _ fun again =>
        again.lower ⟨s, count⟩ = .ok (.assign n lowered) :=
    .map₂ (slot_phrase hn) ((hvalue.blank_before.behind_mark .assign (by decide)).before_mark
      .semicolon (by decide)).blank_before (.of_opening (.append .blank))
      fun again found hagain hfound => by
        rw [lower, hagain, hfound]
        rfl
  refine (Phrase.left hall).of_eq ?_
  simp [← String.toList_inj]

/-- Starts of the storage of slots. -/
theorem rereads_storage_live {slot : Token} : (StatementTree.storageLive slot).Rereads s := by
  intro count _ statement hlower
  simp only [lower, Outcome.bind_eq_ok, Outcome.pure_eq_ok] at hlower
  obtain ⟨n, hn, rfl⟩ := hlower
  have hslot := (storage_phrase .storageLiveKw hn).before_mark .semicolon (by decide)
  refine (Phrase.right (.left (.map hslot fun again hagain => ?_))).of_eq ?_
  · rw [lower, hagain]
    rfl
  · simp [← String.toList_inj]

/-- Ends of the storage of slots. -/
theorem rereads_storage_dead {slot : Token} : (StatementTree.storageDead slot).Rereads s := by
  intro count _ statement hlower
  simp only [lower, Outcome.bind_eq_ok, Outcome.pure_eq_ok] at hlower
  obtain ⟨n, hn, rfl⟩ := hlower
  have hslot := (storage_phrase .storageDeadKw hn).before_mark .semicolon (by decide)
  refine (Phrase.right (.right (.left (.map hslot fun again hagain => ?_)))).of_eq ?_
  · rw [lower, hagain]
    rfl
  · simp [← String.toList_inj]

/-- The statement that does nothing. -/
theorem rereads_nop : StatementTree.nop.Rereads s := by
  intro count _ statement hlower
  obtain rfl := Outcome.pure_eq_ok.mp hlower
  have hword := (Phrase.kw_mark .nopKw .semicolon (by decide)).giving (b := StatementTree.nop)
    (Q := fun again => again.lower ⟨s, count⟩ = .ok .nop) rfl
  exact (Phrase.right (.right (.right hword))).of_eq (by decide)

end StatementTree

/-! ## Terminators -/

/-- An arrow and a block that was read can be read again. -/
theorem target_phrase {tok : Token} {n : Nat} (h : blockNumber tok = .ok n) :
    Phrase Syntax.target ("-> " ++ renderBlockRef n ++ ";") fun again =>
      blockNumber again = .ok n := by
  have hblock := Phrase.block_ref (readable_of_block_number h)
  have hall := (hblock.blank_before.behind_mark .arrow (by decide)).before_mark .semicolon
    (by decide)
  exact hall.of_eq (by simp [← String.toList_inj])

/-- The block that a call returns to can be read again, and that it does not return as well. -/
theorem call_target_phrase {target : Option Token} {block : Option BlockNumber}
    (h : lowerCallTarget target = .ok block) :
    Phrase Syntax.callTarget ("-> " ++ (match block with
      | none => "!"
      | some n => renderBlockRef n) ++ ";") fun again => lowerCallTarget again = .ok block := by
  have hchoice : Phrase (some <$> .token .blockRef <|> (Syntax.mark .bang).giving none)
      (match block with
        | none => "!"
        | some n => renderBlockRef n) fun again => lowerCallTarget again = .ok block := by
    cases target with
    | none =>
        obtain rfl := Outcome.pure_eq_ok.mp h
        exact .right ((Phrase.mark .bang (by decide)).giving rfl)
    | some tok =>
        obtain ⟨n, hn, hblock⟩ := Outcome.bind_eq_ok.mp h
        obtain rfl := Outcome.pure_eq_ok.mp hblock
        refine .left (.map (.block_ref (readable_of_block_number hn)) fun again hagain => ?_)
        rw [lowerCallTarget, hagain]
        rfl
  have hall := (hchoice.blank_before.behind_mark .arrow (by decide)).before_mark .semicolon
    (by decide)
  exact hall.of_eq (by simp [← String.toList_inj])

/-- An arm of a switch that was read can be read again. -/
theorem arm_phrase {arm : Token × Token} {lowered : Int × BlockNumber}
    (h : lowerArm arm = .ok lowered) :
    Phrase Syntax.arm (renderArm lowered) fun again => lowerArm again = .ok lowered := by
  simp only [lowerArm, Outcome.bind_eq_ok, Outcome.pure_eq_ok] at h
  obtain ⟨value, hvalue, n, hn, rfl⟩ := h
  have hall : Phrase Syntax.arm _ fun again => lowerArm again = .ok (value, (n : BlockNumber)) :=
    .map₂ (.integer (readable_of_integer_value hvalue))
      (((Phrase.block_ref (readable_of_block_number hn)).behind_colon).before_mark .comma
        (by decide))
      (.of_opening (.append (.append ⟨':', rfl, rfl⟩))) fun again found hagain hfound => by
        rw [lowerArm, hagain, hfound]
        rfl
  exact hall.blank_after.of_eq (by simp [← String.toList_inj, renderArm])

/-- An arm ends with a blank. -/
theorem closed_render_arm (arm : Int × BlockNumber) : Closed (renderArm arm) :=
  .append ⟨' ', rfl, rfl⟩

/-- The arms of a switch that were read can be read again. -/
theorem arms_phrase {arms : List (Token × Token)} {targets : List (Int × BlockNumber)}
    (h : arms.mapM lowerArm = .ok targets) :
    Phrase (.many Syntax.arm) (String.join (targets.map renderArm)) fun again =>
      again.mapM lowerArm = .ok targets := by
  have harm : ∀ lowered ∈ targets, Phrase Syntax.arm (renderArm lowered) fun again =>
      lowerArm again = .ok lowered := by
    intro lowered hmem
    obtain ⟨arm, -, harm⟩ := Outcome.of_mem_map_m h hmem
    exact arm_phrase harm
  exact (Phrase.many harm (Or.inr fun _ _ => closed_render_arm _)).imp fun again hagain =>
    Outcome.map_m_eq_ok.mpr hagain.flip

namespace TerminatorTree

/-- Jumps. -/
theorem rereads_goto {target : Token} : (TerminatorTree.goto target).Rereads s := by
  intro count _ terminator hlower
  obtain ⟨n, hn, hgoto⟩ := Outcome.bind_eq_ok.mp hlower
  obtain rfl := Outcome.pure_eq_ok.mp hgoto
  refine (Phrase.left (.map ((target_phrase hn).behind_kw .gotoKw)
    fun again hagain => ?_)).of_eq ?_
  · rw [lower, hagain]
    rfl
  · simp [← String.toList_inj]

/-- Returns. -/
theorem rereads_return : TerminatorTree.return.Rereads s := by
  intro count _ terminator hlower
  obtain rfl := Outcome.pure_eq_ok.mp hlower
  have hword := (Phrase.kw_mark .returnKw .semicolon (by decide)).giving (b := TerminatorTree.return)
    (Q := fun again => again.lower ⟨s, count⟩ = .ok .return) rfl
  exact (Phrase.right (.left hword)).of_eq (by decide)

/-- Ends that are not reached. -/
theorem rereads_unreachable : TerminatorTree.unreachable.Rereads s := by
  intro count _ terminator hlower
  obtain rfl := Outcome.pure_eq_ok.mp hlower
  have hword := (Phrase.kw_mark .unreachableKw .semicolon (by decide)).giving
    (b := TerminatorTree.unreachable)
    (Q := fun again => again.lower ⟨s, count⟩ = .ok .unreachable) rfl
  exact (Phrase.right (.right (.left hword))).of_eq (by decide)

/-- Switches with their arms in order. -/
theorem rereads_switch {discr : OperandTree} {arms : List (Token × Token)} {otherwise : Token}
    (h : discr.Rereads s) : (TerminatorTree.switch discr arms otherwise).Rereads s := by
  intro count hone terminator hlower
  simp only [lower, Outcome.bind_eq_ok, Outcome.pure_eq_ok] at hlower
  obtain ⟨targets, htargets, lowered, hlowered, n, hn, rfl⟩ := hlower
  have hdiscr := ((Phrase.kw_mark .switchIntKw .parenOpen (by decide)).seq_right
    (h count hone lowered hlowered) (.of_closed (.append (.mark _)))).before_mark .parenClose
    (by decide)
  have hopen := (Phrase.mark .bracketOpen (by decide)).blank_before.behind_mark .arrow (by decide)
  have harms := (hopen.seq_right (arms_phrase htargets) (.of_closed (.append (.append (.mark _)))))
  have hclosed (front : String) : Closed (front ++ (" " ++ ((Mark.arrow.text ++ (" " ++
      Mark.bracketOpen.text)) ++ String.join (targets.map renderArm)))) :=
    .append (.append (.join (.append (.append (.mark .bracketOpen)))
      (List.forall_mem_map.mpr fun _ _ => closed_render_arm _)))
  have hlast := ((((Phrase.kw .otherwiseKw).seq_right .colon (.of_opening ⟨':', rfl, rfl⟩)).seq_right
    (.block_ref (readable_of_block_number hn)) (.of_closed (.append ⟨' ', rfl, rfl⟩))).before_mark
    .bracketClose (by decide)).before_mark .semicolon (by decide)
  have hall : Phrase Syntax.terminator _ fun again => again.lower ⟨s, count⟩ =
      .ok (.switch lowered targets n) :=
    .right (.right (.right (.left (.map₃ hdiscr harms.blank_before hlast
      (.of_opening (.append .blank)) (.of_closed (hclosed _)) fun again found last hagain hfound hlast => by
        rw [lower, hagain, hfound, hlast]
        rfl))))
  exact hall.of_eq (by simp [← String.toList_inj])

/-- Calls, with a block to return to or without. -/
theorem rereads_call {dest : Token} {func : OperandTree} {args : List OperandTree}
    {target : Option Token} (hfunc : func.Rereads s) (hargs : ∀ arg ∈ args, arg.Rereads s) :
    (TerminatorTree.call dest func args target).Rereads s := by
  intro count hone terminator hlower
  simp only [lower, Outcome.bind_eq_ok, Outcome.pure_eq_ok] at hlower
  obtain ⟨callee, hcallee, operands, hoperands, n, hn, block, hblock, rfl⟩ := hlower
  simp only [traitPaths, List.mem_append, List.mem_flatMap] at hone
  have hfirst := hfunc count (fun path hpath => hone path (Or.inl hpath)) callee hcallee
  have hparts := Rereads.all (fun arg harg => hargs arg harg count)
    (fun arg harg path hpath => hone path (Or.inr ⟨arg, harg, hpath⟩)) hoperands
  have hall : Phrase Syntax.terminator _ fun again => again.lower ⟨s, count⟩ =
      .ok (.call callee operands n block) :=
    .right (.right (.right (.right (.left (.map₄ ((slot_phrase hn).behind_kw .callKw)
      (hfirst.blank_before.behind_mark .assign (by decide)).blank_before (operands_phrase hparts)
      (call_target_phrase hblock).blank_before (.of_opening (.append .blank))
      (.of_opening (.append (.append (.mark .parenOpen)))) (.of_opening (.append .blank))
      fun again found rest last hagain hfound hrest hlast => by
        rw [lower, hagain, hfound, hrest, hlast]
        rfl)))))
  cases block with
  | none => exact hall.of_eq (by simp [← String.toList_inj])
  | some tok => exact hall.of_eq (by simp [← String.toList_inj])

/-- Drops of slots. -/
theorem rereads_drop {slot target : Token} : (TerminatorTree.drop slot target).Rereads s := by
  intro count _ terminator hlower
  simp only [lower, Outcome.bind_eq_ok, Outcome.pure_eq_ok] at hlower
  obtain ⟨n, hn, block, hblock, rfl⟩ := hlower
  have hall : Phrase Syntax.terminator _ fun again => again.lower ⟨s, count⟩ = .ok (.drop n block) :=
    .right (.right (.right (.right (.right (.left (.map₂ (storage_phrase .dropKw hn)
      (target_phrase hblock).blank_before (.of_opening (.append .blank))
      fun again found hagain hfound => by
        rw [lower, hagain, hfound]
        rfl))))))
  exact hall.of_eq (by simp [← String.toList_inj])

/-- Assertions of either value. -/
theorem rereads_assert {cond : OperandTree} {expected : Bool} {target : Token}
    (h : cond.Rereads s) : (TerminatorTree.assert cond expected target).Rereads s := by
  intro count hone terminator hlower
  simp only [lower, Outcome.bind_eq_ok, Outcome.pure_eq_ok] at hlower
  obtain ⟨lowered, hlowered, block, hblock, rfl⟩ := hlower
  have hcond := (Phrase.kw_mark .assertKw .parenOpen (by decide)).seq_right
    (h count hone lowered hlowered) (.of_closed (.append (.mark _)))
  have hexpected := ((bool_phrase expected).blank_before.behind_mark .comma (by decide)).before_mark
    .parenClose (by decide)
  have hall : Phrase Syntax.terminator _ fun again => again.lower ⟨s, count⟩ =
      .ok (.assert lowered expected block) :=
    .right (.right (.right (.right (.right (.right (.map₃ hcond hexpected
      (target_phrase hblock).blank_before (.of_opening (.append (.append (.mark _))))
      (.of_opening (.append .blank)) fun again found last hagain hfound hlast => by
        rw [lower, hagain, hfound, hlast]
        rfl))))))
  exact hall.of_eq (by simp [← String.toList_inj])

end TerminatorTree

end MirAudit.Source
