import MirAudit.Proofs.Source.Functions
import MirAudit.Proofs.Source.Reference
import MirAudit.Proofs.Source.Situates
import MirAudit.Proofs.Text.Digits

/-!
# Where building fails

A fault of building is about a token or about a node of the tree that is built; only a number that is
too long to be read ends it without a place. `FailsIn` says so of one computation and is closed under
sequencing. Each part of the syntax then yields trees whose building fails over their own tokens:
`Faults.item`.
-/

namespace MirAudit.Source

variable {α β : Type} {ts : List Token}

/-- The digits of a token that is a number: a slot, a block or an integer. -/
def Token.numeral (tok : Token) : List Char :=
  match tok.terminal with
  | .slot => tok.text.drop 1
  | .blockRef => tok.text.drop 2
  | .integer => Digits.unsigned tok.text
  | _ => []

/-- The token is a number with too many digits to be read. -/
def Token.Overlong (tok : Token) : Prop :=
  Digits.numeralLimit < tok.numeral.length

/-- The error is a fault about some of the tokens `ts` in a row, or one of these tokens is a number
that is too long to be read. -/
inductive LoadError.In (ts : List Token) : LoadError → Prop
  | located {reason : LoadFault} {r : Region} : r.Among ts → In ts (reason.within r)
  | overlong {tok : Token} : tok ∈ ts → tok.Overlong → In ts (.overlong ⟨tok.numeral.length⟩)

/-! ## Computations -/

/-- If the computation fails, its error is over the tokens `ts`. -/
def FailsIn (ts : List Token) (x : Load α) : Prop :=
  ∀ error, x = .error error → error.In ts

namespace FailsIn

/-- What only gives a value does not fail. -/
theorem pure (a : α) : FailsIn ts (Pure.pure a) :=
  fun _ h => nomatch h

/-- An error over the tokens. -/
theorem error {error : LoadError} (h : error.In ts) : FailsIn ts (.error error : Load α) := by
  intro other hother
  obtain rfl := Except.error.inj hother
  exact h

/-- A fault about some of the tokens in a row. -/
theorem throw {reason : LoadFault} {r : Region} (h : r.Among ts) :
    FailsIn ts (throw (reason.within r) : Load α) :=
  error (.located h)

/-- Computations one after another. -/
theorem bind {x : Load α} {f : α → Load β} (hx : FailsIn ts x) (hf : ∀ a, FailsIn ts (f a)) :
    FailsIn ts (x >>= f) := by
  intro error h
  rcases Outcome.bind_eq_error.mp h with h | ⟨a, -, h⟩
  · exact hx error h
  · exact hf a error h

/-- The same computation for each element of a list. -/
theorem map_m {f : α → Load β} {as : List α} (h : ∀ a ∈ as, FailsIn ts (f a)) :
    FailsIn ts (as.mapM f) := by
  induction as with
  | nil => exact pure []
  | cons a as ih =>
      obtain ⟨hhead, htail⟩ := List.forall_mem_cons.mp h
      rw [List.mapM_cons]
      exact hhead.bind fun b => (ih htail).bind fun bs => pure (b :: bs)

end FailsIn

/-- The same of a step of loading, from any program. -/
def StepFailsIn (ts : List Token) (x : LoadStep α) : Prop :=
  ∀ p, FailsIn ts (x.run p)

namespace StepFailsIn

/-- What only gives a value does not fail. -/
theorem pure (a : α) : StepFailsIn ts (Pure.pure a) :=
  fun p => FailsIn.pure (a, p)

/-- Steps one after another. -/
theorem bind {x : LoadStep α} {f : α → LoadStep β} (hx : StepFailsIn ts x)
    (hf : ∀ a, StepFailsIn ts (f a)) : StepFailsIn ts (x >>= f) :=
  fun p => (hx p).bind fun found => hf found.1 found.2

/-- What is built without a program fails as it does. -/
theorem lift {x : Load α} (hx : FailsIn ts x) : StepFailsIn ts (liftM x : LoadStep α) :=
  fun p => hx.bind fun a => FailsIn.pure (a, p)

/-- A step whose value is changed fails as it does. -/
theorem map {x : LoadStep α} {f : α → β} (hx : StepFailsIn ts x) : StepFailsIn ts (f <$> x) := by
  rw [map_eq_pure_bind]
  exact hx.bind fun a => pure (f a)

/-- What only changes the program does not fail. -/
theorem modify (f : Program → Program) : StepFailsIn ts (modify f : LoadStep Unit) :=
  fun p => FailsIn.pure ((), f p)

/-- A registration fails over the region that it is for. -/
theorem register {region : Region} {add : Program → Except RegistrationFault Unit × Program}
    (h : region.Among ts) : StepFailsIn ts (register region add) := by
  intro p error herror
  obtain ⟨reason, rfl⟩ := LoadStep.run_register_eq_error herror
  exact .located h

/-- The same step for each element of a list, with its value. -/
theorem map_m {f : α → LoadStep β} {as : List α} (h : ∀ a ∈ as, StepFailsIn ts (f a)) :
    StepFailsIn ts (as.mapM f) := by
  induction as with
  | nil => exact pure []
  | cons a as ih =>
      obtain ⟨hhead, htail⟩ := List.forall_mem_cons.mp h
      rw [List.mapM_cons]
      exact hhead.bind fun b => (ih htail).bind fun bs => pure (b :: bs)

/-- The same step for each element of a list. -/
theorem for_m {f : α → LoadStep Unit} {as : List α} (h : ∀ a ∈ as, StepFailsIn ts (f a)) :
    StepFailsIn ts (as.forM f) := by
  induction as with
  | nil => exact pure ()
  | cons a as ih =>
      obtain ⟨hhead, htail⟩ := List.forall_mem_cons.mp h
      exact hhead.bind fun _ => ih htail

end StepFailsIn

/-! ## Types and paths -/

namespace FailsIn

/-- Types fail as one of them does. -/
theorem types {trees : List TypeTree} (h : ∀ tree ∈ trees, ∀ s, FailsIn ts (tree.lower s))
    (s : Scope) : FailsIn ts (lowerTypes s trees) := by
  induction trees with
  | nil => exact pure []
  | cons tree trees ih =>
      obtain ⟨hhead, htail⟩ := List.forall_mem_cons.mp h
      rw [lowerTypes]
      exact (hhead s).bind fun ty => (ih htail).bind fun tys => pure (ty :: tys)

/-- The segments of a path fail as one of them does. -/
theorem segments {path : PathTree} (h : ∀ segment ∈ path, ∀ s, FailsIn ts (segment.lower s))
    (s : Scope) : FailsIn ts (lowerSegments s path) := by
  induction path with
  | nil => exact pure []
  | cons segment path ih =>
      obtain ⟨hhead, htail⟩ := List.forall_mem_cons.mp h
      rw [lowerSegments]
      exact (hhead s).bind fun text => (ih htail).bind fun texts => pure (text :: texts)

/-- The definition that a path names fails as its segments do. -/
theorem def_of {path : PathTree} {s : Scope} (h : FailsIn ts (lowerSegments s path)) :
    FailsIn ts (lowerDef s path) :=
  h.bind fun segments => pure (s.defOf segments)

/-- A type that a path names fails as its parts do, or as a whole. -/
theorem named {region : Region} {path : PathTree} {args : List TypeTree} (hregion : region.Among ts)
    (hpath : ∀ s, FailsIn ts (lowerSegments s path)) (hargs : ∀ s, FailsIn ts (lowerTypes s args))
    (s : Scope) : FailsIn ts ((TypeTree.named region path args).lower s) := by
  rw [TypeTree.lower]
  refine (hargs s).bind fun args => (hpath s).bind fun segments => ?_
  split
  · split
    · split
      · exact pure _
      · exact throw hregion
    · exact pure _
  · exact pure _

end FailsIn

/-- What is to hold of the types and the paths that are read: whatever is in scope, building them
fails over the tokens if it fails. -/
def failsIn (ts : List Token) : (n : Syntax.Rule) → n.Tree → Prop
  | .ty => fun tree => ∀ s, FailsIn ts (tree.lower s)
  | .path => fun path => ∀ s, FailsIn ts (lowerSegments s path)

namespace Faults

open Gram (Situates)

/-- Any type that is read. -/
theorem ty : Situates ts (failsIn ts) Syntax.ty fun tree => ∀ s, FailsIn ts (tree.lower s) :=
  fun _ h => h

/-- Any path that is read. -/
theorem path :
    Situates ts (failsIn ts) Syntax.path fun path => ∀ s, FailsIn ts (lowerSegments s path) :=
  fun _ h => h

/-- Type arguments. -/
theorem type_args :
    Situates ts (failsIn ts) Syntax.typeArgs fun args => ∀ arg ∈ args, ∀ s, FailsIn ts (arg.lower s) :=
  .or_nothing (.angled ty)

/-- The elements of a tuple behind the first. -/
theorem tuple_rest : Situates ts (failsIn ts) Syntax.tupleRest fun elems =>
    ∀ elem ∈ elems, ∀ s, FailsIn ts (elem.lower s) :=
  .seq_right (.choice (.giving nofun) (.seq_left (.separated ty .comma)))

/-- A type behind an opening parenthesis. -/
theorem paren_rest : Situates ts (failsIn ts) Syntax.parenRest (failsIn ts .ty) := by
  refine .choice (.giving fun s => ?_) (.map₂ ty tuple_rest fun elem elems helem helems s => ?_)
  · exact .pure _
  · rw [TypeTree.lower]
    exact (FailsIn.types (List.forall_mem_cons.mpr ⟨helem, helems⟩) s).bind fun tys =>
      .pure _

/-- A segment of a path. -/
theorem segment :
    Situates ts (failsIn ts) Syntax.segment fun segment => ∀ s, FailsIn ts (segment.lower s) := by
  refine .choice (.map (.token .name) fun tok _ s => ?_)
    (.map₂ (.seq_right ty) (.seq_left (.seq_right path)) fun ty path hty hpath s => ?_)
  · exact .pure tok.string
  · rw [SegmentTree.lower]
    exact (hty s).bind fun ty => (hpath s).bind fun segments =>
      .pure (implSegment ty (s.defOf segments))

/-- A type that a path names. -/
theorem named_ty : Situates ts (failsIn ts) Syntax.namedTy (failsIn ts .ty) := by
  have hpair : Situates ts (failsIn ts) (Prod.mk <$> Syntax.path <*> Syntax.typeArgs) fun found =>
      (∀ s, FailsIn ts (lowerSegments s found.1)) ∧
        ∀ arg ∈ found.2, ∀ s, FailsIn ts (arg.lower s) :=
    .map₂ path type_args fun _ _ hpath hargs => ⟨hpath, hargs⟩
  refine .map (.spanned hpair rfl fun tree hregion htree => ?_) fun tree htree => htree
  exact FailsIn.named hregion htree.1 (FailsIn.types htree.2)

/-- Building any type or path that is read fails over its own tokens. -/
theorem definition (n : Syntax.Rule) :
    Situates ts (failsIn ts) (Syntax.definition n) (failsIn ts n) := by
  cases n with
  | ty =>
      refine .choice (.seq_right paren_rest) (.choice ?ref (.choice ?fnPtr (.choice ?fnDef
        (.choice (.giving fun s => .pure _) named_ty))))
      case ref =>
        refine .map₂ (.trivially _ fun _ => trivial) ty fun mutable tree _ htree s => ?_
        rw [TypeTree.lower]
        exact (htree s).bind fun pointee => .pure _
      case fnPtr =>
        refine .map₂ (.seq_right (.parenthesised ty)) (.seq_right ty)
          fun inputs output hinputs houtput s => ?_
        rw [TypeTree.lower]
        exact (FailsIn.types hinputs s).bind fun inputs => (houtput s).bind fun output =>
          .pure _
      case fnDef =>
        refine .map₂ (.seq_right path) type_args fun path args hpath hargs s => ?_
        rw [TypeTree.lower]
        exact (hpath s).bind fun segments => (FailsIn.types hargs s).bind fun args =>
          .pure _
  | path => exact .imp (.separated segment .pathSep) fun _ => FailsIn.segments

end Faults

/-! ## Bodies -/

namespace FailsIn

/-- A token that is a number fails to be read exactly if it is too long. -/
theorem numeral {outcome : Except Digits.Overlong α} {t : Terminal} {tok : Token}
    (htok : tok.OneOf ts t) (h : ∀ o, outcome = .error o → tok.Overlong ∧ o = ⟨tok.numeral.length⟩) :
    FailsIn ts (readNumeral outcome) := by
  intro error herror
  obtain ⟨o, ho, rfl⟩ := Outcome.map_error_eq_error.mp herror
  obtain ⟨hlong, rfl⟩ := h o ho
  exact .overlong htok.mem hlong

/-- The number of a slot fails to be read over the slot. -/
theorem slot_number {tok : Token} (h : tok.OneOf ts .slot) : FailsIn ts (slotNumber tok) := by
  have hnumeral : tok.numeral = tok.text.drop 1 := by rw [Token.numeral, h.terminal]
  refine numeral h fun o ho => ?_
  rw [Token.Overlong, hnumeral]
  exact Digits.read_nat_eq_error.mp ho

/-- The number of a block fails to be read over the block. -/
theorem block_number {tok : Token} (h : tok.OneOf ts .blockRef) : FailsIn ts (blockNumber tok) := by
  have hnumeral : tok.numeral = tok.text.drop 2 := by rw [Token.numeral, h.terminal]
  refine numeral h fun o ho => ?_
  rw [Token.Overlong, hnumeral]
  exact Digits.read_nat_eq_error.mp ho

/-- An integer fails to be read over its token. -/
theorem integer_value {tok : Token} (h : tok.OneOf ts .integer) : FailsIn ts (integerValue tok) := by
  have hnumeral : tok.numeral = Digits.unsigned tok.text := by rw [Token.numeral, h.terminal]
  refine numeral h fun o ho => ?_
  rw [Token.Overlong, hnumeral]
  exact Digits.read_int_eq_error.mp ho

/-- A slot fails over its token. -/
theorem slot {s : BodyScope} {tok : Token} (h : tok.OneOf ts .slot) :
    FailsIn ts (lowerSlot s tok) := by
  refine (slot_number h).bind fun slot => ?_
  split
  · exact pure _
  · exact throw h.among

/-- What is numbered fails over its number, or as what is numbered does. -/
theorem numbered {t : Terminal} {tok : Token} {number : Load Nat} {next : Nat} {reason : LoadFault}
    {x : Load α} (htok : tok.OneOf ts t) (hnumber : FailsIn ts number) (hx : FailsIn ts x) :
    FailsIn ts (do
      let n ← number
      if n ≠ next then MonadExcept.throw (reason.within tok.region) else x) := by
  refine hnumber.bind fun n => ?_
  split
  · exact throw htok.among
  · exact hx

/-- Declarations of slots fail over the slots, or in their types. -/
theorem locals {trees : List LocalTree}
    (h : ∀ tree ∈ trees, tree.slot.OneOf ts .slot ∧ ∀ s, FailsIn ts (tree.ty.lower s)) (s : Scope)
    (next : Nat) : FailsIn ts (lowerLocals s next trees) := by
  induction trees generalizing next with
  | nil => exact pure []
  | cons tree trees ih =>
      obtain ⟨⟨hslot, hty⟩, htail⟩ := List.forall_mem_cons.mp h
      rw [lowerLocals]
      exact numbered hslot (slot_number hslot)
        ((hty s).bind fun ty => (ih htail (next + 1)).bind fun decls => pure _)

/-- Blocks fail over their labels, or in their parts. -/
theorem blocks {s : BodyScope} {trees : List BlockTree}
    (h : ∀ tree ∈ trees, tree.label.OneOf ts .blockRef ∧
      (∀ statement ∈ tree.statements, ∀ s, FailsIn ts (statement.lower s)) ∧
      ∀ s, FailsIn ts (tree.terminator.lower s)) (next : Nat) :
    FailsIn ts (lowerBlocks s next trees) := by
  induction trees generalizing next with
  | nil => exact pure []
  | cons tree trees ih =>
      obtain ⟨⟨hlabel, hstatements, hterminator⟩, htail⟩ := List.forall_mem_cons.mp h
      rw [lowerBlocks]
      refine numbered hlabel (block_number hlabel) ?_
      exact (map_m fun statement hstatement => hstatements statement hstatement s).bind
        fun statements => (hterminator s).bind fun terminator =>
          (ih htail (next + 1)).bind fun blocks => pure _

/-- A body fails in its parts, or as a whole. -/
theorem body {scope : Scope} {sig : Signature} {tree : Spanned BodyTree} (hregion : tree.region.Among ts)
    (hlocals : ∀ s next, FailsIn ts (lowerLocals s next tree.value.locals))
    (hblocks : ∀ s next, FailsIn ts (lowerBlocks s next tree.value.blocks)) :
    FailsIn ts (BodyTree.lower scope sig tree) := by
  unfold BodyTree.lower
  refine (hlocals scope 0).bind fun locals => (hblocks _ 0).bind fun blocks => ?_
  split
  · exact throw hregion
  · exact pure _

end FailsIn

namespace Faults

open Gram (Situates)

/-- A literal fails over its own token: a string that is malformed, or an integer that is too long.
-/
theorem literal : Situates ts (failsIn ts) Syntax.literal fun tree => FailsIn ts tree.lower := by
  refine .choice (.map (.token .integer) fun tok htok => ?_)
    (.choice (.map (.trivially _ fun _ => trivial) fun value _ => ?_)
      (.choice (.map (.token .string) fun tok htok => ?_) (.giving ?_)))
  · exact (FailsIn.integer_value htok).bind fun value => .pure _
  · exact .pure _
  · rw [LiteralTree.lower]
    split
    · exact .pure _
    · exact .throw htok.among
  · exact .pure _

/-- An operand fails at its slot, or in its type, its value or its path. -/
theorem operand :
    Situates ts (failsIn ts) Syntax.operand fun tree => ∀ s, FailsIn ts (tree.lower s) := by
  refine .choice (.map (.seq_right (.token .slot)) fun slot hslot s => ?copy)
    (.choice (.map (.seq_right (.token .slot)) fun slot hslot s => ?move)
      (.choice (.map₂ (.seq_right literal) (.seq_right ty) fun value ty hvalue hty s => ?const)
        (.map₂ (.seq_right path) type_args fun path args hpath hargs s => ?fnItem)))
  case copy | move => exact (FailsIn.slot hslot).bind fun slot => .pure _
  case const => exact (hty s.scope).bind fun ty => hvalue.bind fun value => .pure _
  case fnItem =>
    exact (FailsIn.def_of (hpath s.scope)).bind fun fn => (FailsIn.types hargs s.scope).bind
      fun args => .pure _

/-- A right-hand side fails in its slot, its type or its operands. -/
theorem rvalue :
    Situates ts (failsIn ts) Syntax.rvalue fun tree => ∀ s, FailsIn ts (tree.lower s) := by
  refine .choice
    (.map₃ (.token .name) (.seq_right operand) (.seq_left (.seq_right operand)) ?binary)
    (.choice (.map₂ (.trivially _ fun _ => trivial) (.token .slot) ?ref)
      (.choice (.map₂ (.seq_right operand) (.seq_left (.seq_right ty)) ?cast)
        (.choice (.map₂ (.seq_right ty) (.parenthesised operand) ?aggregate) (.map operand ?use))))
  case binary =>
    exact fun op lhs rhs _ hlhs hrhs s => (hlhs s).bind fun lhs => (hrhs s).bind fun rhs => .pure _
  case ref => exact fun mutable slot _ hslot s => (FailsIn.slot hslot).bind fun slot => .pure _
  case cast =>
    exact fun operand ty hoperand hty s => (hoperand s).bind fun operand =>
      (hty s.scope).bind fun ty => .pure _
  case aggregate =>
    exact fun ty operands hty hoperands s => (hty s.scope).bind fun ty =>
      (FailsIn.map_m fun operand hoperand => hoperands operand hoperand s).bind fun operands =>
        .pure _
  case use => exact fun operand hoperand s => (hoperand s).bind fun operand => .pure _

/-- A statement fails in its slot or its right-hand side. -/
theorem statement :
    Situates ts (failsIn ts) Syntax.statement fun tree => ∀ s, FailsIn ts (tree.lower s) := by
  refine .choice (.map₂ (.token .slot) (.seq_left (.seq_right rvalue)) ?assign)
    (.choice (.map (.seq_left (.seq_left (.seq_right (.token .slot)))) ?storageLive)
      (.choice (.map (.seq_left (.seq_left (.seq_right (.token .slot)))) ?storageDead)
        (.giving fun s => .pure _)))
  case assign =>
    exact fun slot rvalue hslot hrvalue s => (FailsIn.slot hslot).bind fun slot =>
      (hrvalue s).bind fun rvalue => .pure _
  case storageLive | storageDead =>
    exact fun slot hslot s => (FailsIn.slot hslot).bind fun slot => .pure _

/-- An arm of a switch fails over its value or its block. -/
theorem arm : Situates ts (failsIn ts) Syntax.arm fun arm => FailsIn ts (lowerArm arm) :=
  .map₂ (.token .integer) (.seq_left (.seq_right (.token .blockRef))) fun _ _ hvalue hblock =>
    (FailsIn.integer_value hvalue).bind fun _ => (FailsIn.block_number hblock).bind fun _ => .pure _

/-- A jump fails over its block. -/
theorem target :
    Situates ts (failsIn ts) Syntax.target fun target => FailsIn ts (blockNumber target) :=
  .seq_left (.seq_right (.imp (.token .blockRef) fun _ => FailsIn.block_number))

/-- The return of a call fails over its block, if there is one. -/
theorem call_target :
    Situates ts (failsIn ts) Syntax.callTarget fun target => FailsIn ts (lowerCallTarget target) :=
  .seq_left (.seq_right (.choice
    (.map (.token .blockRef) fun _ htok => (FailsIn.block_number htok).bind fun _ => .pure _)
    (.giving (.pure _))))

/-- A terminator fails in its blocks, its slot or its operands. -/
theorem terminator :
    Situates ts (failsIn ts) Syntax.terminator fun tree => ∀ s, FailsIn ts (tree.lower s) := by
  refine .choice ?goto (.choice (.giving fun s => .pure _) (.choice (.giving fun s => .pure _)
    (.choice ?switch (.choice ?call (.choice ?drop ?assert)))))
  case goto => exact .map (.seq_right target) fun target htarget s => htarget.bind fun block => .pure _
  case switch =>
    exact .map₃ (.seq_left (.seq_right operand)) (.seq_right (.many arm))
      (.seq_left (.seq_left (.seq_right (.token .blockRef)))) fun discr arms otherwise hdiscr harms hblock s =>
        (FailsIn.map_m harms).bind fun targets => (hdiscr s).bind fun discr =>
          (FailsIn.block_number hblock).bind fun otherwise => .pure _
  case call =>
    exact .map₄ (.seq_right (.token .slot)) (.seq_right operand) (.parenthesised operand)
      call_target fun dest func args target hdest hfunc hargs htarget s =>
        (hfunc s).bind fun func => (FailsIn.map_m fun arg harg => hargs arg harg s).bind fun args =>
          (FailsIn.slot hdest).bind fun dest => htarget.bind fun target => .pure _
  case drop =>
    exact .map₂ (.seq_left (.seq_right (.token .slot))) target
      fun slot target hslot htarget s => (FailsIn.slot hslot).bind fun slot =>
        htarget.bind fun target => .pure _
  case assert =>
    exact .map₃ (.seq_right operand) (.trivially _ fun _ => trivial) target
      fun cond expected target hcond _ htarget s => (hcond s).bind fun cond =>
        htarget.bind fun target => .pure _

/-- The declaration of a slot has the slot as its place, and fails in its type. -/
theorem local_decl : Situates ts (failsIn ts) Syntax.localDecl fun tree =>
    tree.slot.OneOf ts .slot ∧ ∀ s, FailsIn ts (tree.ty.lower s) :=
  .map₃ (.trivially _ fun _ => trivial) (.token .slot) (.seq_left (.seq_right ty))
    fun _ _ _ _ hslot hty => ⟨hslot, hty⟩

/-- A block has its label as its place, and fails in its statements or its terminator. -/
theorem block : Situates ts (failsIn ts) Syntax.block fun tree => tree.label.OneOf ts .blockRef ∧
    (∀ statement ∈ tree.statements, ∀ s, FailsIn ts (statement.lower s)) ∧
      ∀ s, FailsIn ts (tree.terminator.lower s) :=
  .map₃ (.seq_left (.seq_left (.token .blockRef))) (.many statement) (.seq_left terminator)
    fun _ _ _ hlabel hstatements hterminator => ⟨hlabel, hstatements, hterminator⟩

/-- A body fails in its declarations, in its blocks or as a whole. -/
theorem body : Situates ts (failsIn ts) Syntax.body fun tree =>
    ∀ scope sig, FailsIn ts (BodyTree.lower scope sig tree) := by
  have hparts : Situates ts (failsIn ts) (BodyTree.mk <$> (Syntax.mark .braceOpen *>
      .many Syntax.localDecl) <*> (.many Syntax.block <* Syntax.mark .braceClose)) fun tree =>
      (∀ s next, FailsIn ts (lowerLocals s next tree.locals)) ∧
        ∀ s next, FailsIn ts (lowerBlocks s next tree.blocks) :=
    .map₂ (.seq_right (.many local_decl)) (.seq_left (.many block)) fun _ _ hlocals hblocks =>
      ⟨FailsIn.locals hlocals, fun _ => FailsIn.blocks hblocks⟩
  exact .spanned hparts rfl fun tree hregion htree scope sig =>
    FailsIn.body hregion htree.1 htree.2

end Faults

/-! ## Signatures -/

/-- A parameter that occurs twice is a fault over one of the parameters. -/
theorem in_of_duplicate_param {params : List (Spanned ParamTree)} {error : LoadError}
    (h : ∀ param ∈ params, param.region.Among ts) {seen : List String}
    (herror : duplicateParam? seen params = some error) : error.In ts := by
  induction params generalizing seen with
  | nil => cases herror
  | cons param params ih =>
      obtain ⟨hparam, hrest⟩ := List.forall_mem_cons.mp h
      rw [duplicateParam?] at herror
      split at herror
      · obtain rfl := Option.some.inj herror
        exact .located hparam
      · exact ih hrest herror

/-- A signature fails at a parameter, or in its types. -/
theorem FailsIn.signature {tree : SignatureTree}
    (hgenerics : ∀ param ∈ tree.generics, param.region.Among ts ∧ ∀ s, FailsIn ts (param.value.lower s))
    (hinputs : ∀ input ∈ tree.inputs, ∀ s, FailsIn ts (input.lower s))
    (houtput : ∀ output ∈ tree.output, ∀ s, FailsIn ts (output.lower s)) (outer : Scope) :
    FailsIn ts (tree.lower outer) := by
  unfold SignatureTree.lower
  refine (map_m fun param hparam => (hgenerics param hparam).2 outer).bind fun generics => ?_
  cases herror : duplicateParam? [] tree.generics with
  | some found =>
      exact error (in_of_duplicate_param (fun param hparam => (hgenerics param hparam).1) herror)
  | none =>
      refine (types hinputs _).bind fun inputs => ?_
      cases htree : tree.output with
      | none => exact pure _
      | some output => exact (houtput output htree _).bind fun output => pure _

namespace Faults

open Gram (Situates)

/-- A type parameter has a region, and fails in its bounds. -/
theorem generic_param : Situates ts (failsIn ts) Syntax.genericParam fun param =>
    param.region.Among ts ∧ ∀ s, FailsIn ts (param.value.lower s) := by
  have hparts : Situates ts (failsIn ts) (ParamTree.mk <$> .token .name <*>
      Syntax.orNothing (Syntax.mark .colon *> Syntax.separated .plus Syntax.path)) fun tree =>
      ∀ s, FailsIn ts (tree.lower s) :=
    .map₂ (.token .name) (.or_nothing (.seq_right (.separated path .plus)))
      fun name bounds _ hbounds s =>
        (FailsIn.map_m fun path hpath => FailsIn.def_of (hbounds path hpath s)).bind
          fun bounds => .pure _
  exact .spanned hparts rfl fun _ hregion htree => ⟨hregion, htree⟩

/-- A signature fails at a parameter, or in its types. -/
theorem signature :
    Situates ts (failsIn ts) Syntax.signature fun tree => ∀ s, FailsIn ts (tree.lower s) :=
  .map₄ (.token .name) (.or_nothing (.angled generic_param)) (.parenthesised ty)
    (.optional (.seq_right ty)) fun _ _ _ _ _ hgenerics hinputs houtput =>
      FailsIn.signature hgenerics hinputs houtput

/-- A method fails as a whole, in its signature or in its body. -/
structure Method (ts : List Token) (tree : Spanned MethodTree) : Prop where
  region : tree.region.Among ts
  signature : ∀ s, FailsIn ts (tree.value.signature.lower s)
  body : ∀ body ∈ tree.value.body, ∀ scope sig, FailsIn ts (BodyTree.lower scope sig body)

/-- A method with whatever body, if its body fails over its tokens. -/
theorem method {p : Syntax.Part (Option (Spanned BodyTree))}
    (hp : Situates ts (failsIn ts) p fun body? =>
      ∀ body ∈ body?, ∀ scope sig, FailsIn ts (BodyTree.lower scope sig body)) :
    Situates ts (failsIn ts)
      (.spanned (MethodTree.mk <$> (Syntax.kw .fnKw *> Syntax.signature) <*> p)) (Method ts) := by
  have hparts : Situates ts (failsIn ts)
      (MethodTree.mk <$> (Syntax.kw .fnKw *> Syntax.signature) <*> p) fun tree =>
      (∀ s, FailsIn ts (tree.signature.lower s)) ∧
        ∀ body ∈ tree.body, ∀ scope sig, FailsIn ts (BodyTree.lower scope sig body) :=
    .map₂ (.seq_right signature) hp fun _ _ hsignature hbody => ⟨hsignature, hbody⟩
  exact .spanned hparts rfl fun tree hregion htree => ⟨hregion, htree.1, htree.2⟩

end Faults

/-! ## Items -/

namespace StepFailsIn

variable {l : Loader}

/-- A function of another crate. -/
theorem extern_signature {crate : String} {tree : Spanned SignatureTree} (hregion : tree.region.Among ts)
    (h : ∀ s, FailsIn ts (tree.value.lower s)) : StepFailsIn ts (loadExternSignature l crate tree) :=
  (lift (h l.scope)).bind fun _ => register hregion

/-- A foreign function. -/
theorem extern_fn {region : Region} {tree : SignatureTree} (hregion : region.Among ts)
    (h : ∀ s, FailsIn ts (tree.lower s)) : StepFailsIn ts (loadExternFn l region tree) :=
  (lift (h l.scope)).bind fun _ => register hregion

/-- A function with a body. -/
theorem fn {region : Region} {entry : Bool} {signature : SignatureTree} {body : Spanned BodyTree}
    (hregion : region.Among ts) (hsignature : ∀ s, FailsIn ts (signature.lower s))
    (hbody : ∀ scope sig, FailsIn ts (BodyTree.lower scope sig body)) :
    StepFailsIn ts (loadFn l region entry signature body) :=
  (lift (hsignature l.scope)).bind fun found => (lift (hbody found.2 found.1)).bind fun _ =>
    register hregion

/-- A method of a trait. -/
theorem trait_method {traitDef : DefId} {tree : Spanned MethodTree} (h : Faults.Method ts tree) :
    StepFailsIn ts (loadTraitMethod l traitDef tree) := by
  unfold loadTraitMethod
  refine (lift (h.signature _)).bind fun (sig, scope) => ?_
  cases hbody : tree.value.body with
  | none => exact (register h.region).bind fun _ => pure _
  | some body =>
      exact (lift (h.body body hbody scope sig)).map.bind fun _ =>
        (register h.region).bind fun _ => pure _

/-- A method of an impl. -/
theorem impl_method {path : String} {selfTy : Ty} {tree : Spanned MethodTree}
    (h : Faults.Method ts tree) : StepFailsIn ts (loadImplMethod l path selfTy tree) := by
  unfold loadImplMethod
  refine (lift (h.signature _)).bind fun (sig, scope) => ?_
  cases hbody : tree.value.body with
  | none => exact (register h.region).bind fun _ => pure _
  | some body =>
      exact (lift (h.body body hbody scope sig)).map.bind fun _ =>
        (register h.region).bind fun _ => pure _

/-- An impl fails in its path, its type or its methods, or as a whole. -/
theorem impl {region : Region} {path : PathTree} {selfTy : TypeTree}
    {methods : List (Spanned MethodTree)} (hregion : region.Among ts)
    (hpath : ∀ s, FailsIn ts (lowerSegments s path)) (hself : ∀ s, FailsIn ts (selfTy.lower s))
    (hmethods : ∀ tree ∈ methods, Faults.Method ts tree) :
    StepFailsIn ts (loadImpl l region path selfTy methods) :=
  (lift (FailsIn.def_of (hpath l.scope))).bind fun _ => (lift (hself l.scope)).bind fun _ =>
    (map_m fun tree htree => impl_method (hmethods tree htree)).bind fun _ => register hregion

end StepFailsIn

namespace Faults

open Gram (Situates)

/-- A function of another crate has a region, and fails in its signature. -/
theorem extern_signature : Situates ts (failsIn ts) Syntax.externSignature fun tree =>
    tree.region.Among ts ∧ ∀ s, FailsIn ts (tree.value.lower s) :=
  .spanned (.seq_left (.seq_right signature)) rfl fun _ hregion htree => ⟨hregion, htree⟩

/-- A method of a trait, with or without body. -/
theorem trait_method : Situates ts (failsIn ts) Syntax.traitMethod (Method ts) := by
  refine method (.choice (.giving nofun) (.map body fun body hbody => ?_))
  rintro _ ⟨⟩
  exact hbody

/-- A method of an impl. -/
theorem impl_method : Situates ts (failsIn ts) Syntax.implMethod (Method ts) := by
  refine method (.map body fun body hbody => ?_)
  rintro _ ⟨⟩
  exact hbody

/-- Loading any item that is read fails over its own tokens, whatever the items of
the text share and whatever was loaded before. -/
theorem item : Situates ts (failsIn ts) Syntax.item fun item =>
    item.region.Among ts ∧ ∀ l, StepFailsIn ts (loadItem l item) := by
  have hitem {p : Syntax.Part ItemTree} (hnull : p.nullable = false)
      (h : Situates ts (failsIn ts) p fun tree =>
        ∀ l region, region.Among ts → StepFailsIn ts (loadItem l ⟨tree, region⟩)) :
      Situates ts (failsIn ts) (.spanned p) fun item =>
        item.region.Among ts ∧ ∀ l, StepFailsIn ts (loadItem l item) :=
    .spanned h hnull fun item hregion htree => ⟨hregion, fun l => htree l item.region hregion⟩
  refine hitem rfl (.choice (.map (.trivially _ fun _ => trivial) fun _ _ _ _ _ => .pure ())
    (.choice (.seq_right (.choice ?externCrate ?externFn)) (.choice ?struct (.choice ?trait
      (.choice ?impl ?fn)))))
  case externCrate =>
    exact .map₂ (.trivially _ fun _ => trivial) (.seq_left (.many extern_signature))
      fun name signatures _ hsignatures l region _ => .for_m fun tree htree =>
        .extern_signature (hsignatures tree htree).1 (hsignatures tree htree).2
  case externFn =>
    exact .map (.seq_left (.seq_right signature)) fun tree htree l region hregion =>
      .extern_fn hregion htree
  case struct =>
    exact .map₂ (.trivially _ fun _ => trivial) (.trivially _ fun _ => trivial)
      fun _ _ _ _ _ _ _ => .modify _
  case trait =>
    exact .map₂ (.trivially _ fun _ => trivial) (.seq_left (.many trait_method))
      fun name methods _ hmethods l region _ =>
        (StepFailsIn.map_m fun tree htree => .trait_method (hmethods tree htree)).bind fun _ =>
          .modify _
  case impl =>
    exact .map₃ (.seq_right path) (.seq_left (.seq_right ty)) (.seq_left (.many impl_method))
      fun _ _ _ hpath hself hmethods l region hregion => .impl hregion hpath hself hmethods
  case fn =>
    exact .map₃ (.trivially _ fun _ => trivial) (.seq_right signature) body
      fun _ _ _ _ hsignature hbody l region hregion => .fn hregion hsignature hbody

end Faults

/-- Loading an item of a text fails over its tokens, if it fails. -/
theorem item_fails_in {item : Spanned ItemTree}
    (h : Gram.Derives Syntax.definition Syntax.item ts item) :
    item.region.Among ts ∧ ∀ l, StepFailsIn ts (loadItem l item) :=
  Faults.item.derives Reference.lookahead.toFirstTable Faults.definition List.infix_rfl h

end MirAudit.Source
