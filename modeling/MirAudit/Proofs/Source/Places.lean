import MirAudit.Proofs.Source.Derivations
import MirAudit.Source.Syntax

/-!
# Trees without places

`unplaced` forgets where the tokens of a tree stand in the text. Tokens that agree up to their
places are read as trees that agree up to their places: `derives_alike`. `Gram.Relates` carries a
relation between tokens through a grammar, one form of grammars after another.
-/

namespace MirAudit.Source

/-! ## Relations carried through grammars -/

namespace Gram

variable {N : Type} {ρ : N → Type} {rules : (n : N) → Gram ρ (ρ n)} {α β γ δ : Type}

/-- What a grammar yields is related by `R` if its tokens are related by `T`, and what the named
rules yield by `S`. -/
def Relates (T : Token → Token → Prop) (S : (n : N) → ρ n → ρ n → Prop) :
    {α : Type} → Gram ρ α → (α → α → Prop) → Prop
  | _, .token t, R => ∀ tok tok', tok.terminal = t → T tok tok' → R tok tok'
  | _, .done a, R => R a a
  | _, .seq (α := α) (β := β) p q, R =>
    ∃ P : α → α → Prop, ∃ Q : β → β → Prop, p.Relates T S P ∧ q.Relates T S Q ∧
      ∀ a a' b b', P a a' → Q b b' → R (a, b) (a', b')
  | _, .choice p q, R => p.Relates T S R ∧ q.Relates T S R
  | _, .many (α := α) p, R =>
    ∃ P : α → α → Prop, p.Relates T S P ∧ ∀ as as', List.Forall₂ P as as' → R as as'
  | _, .map (α := α) f p, R =>
    ∃ P : α → α → Prop, p.Relates T S P ∧ ∀ a a', P a a' → R (f a) (f a')
  | _, .spanned (α := α) p, R =>
    ∃ P : α → α → Prop, p.Relates T S P ∧ ∀ a a', P a.value a'.value → R a a'
  | _, .rule n, R => ∀ a a', S n a a' → R a a'

/-- What is related to two lists one after another splits as they do. -/
theorem split_of_forall₂ {R : α → β → Prop} {left right : List α} {all : List β}
    (h : List.Forall₂ R (left ++ right) all) :
    ∃ us vs, all = us ++ vs ∧ List.Forall₂ R left us ∧ List.Forall₂ R right vs := by
  induction left generalizing all with
  | nil => exact ⟨[], all, rfl, .nil, h⟩
  | cons a left ih =>
      obtain ⟨b, rest, hab, hrest, rfl⟩ := List.forall₂_cons_left_iff.mp h
      obtain ⟨us, vs, rfl, hus, hvs⟩ := ih hrest
      exact ⟨b :: us, vs, rfl, .cons hab hus, hvs⟩

variable {T : Token → Token → Prop} {S : (n : N) → ρ n → ρ n → Prop}

/-- Related tokens are derived with related values. -/
theorem Relates.derives (hterminal : ∀ tok tok', T tok tok' → tok'.terminal = tok.terminal)
    (hrules : ∀ n, (rules n).Relates T S (S n)) {g : Gram ρ α} {ts us : List Token} {a : α}
    {R : α → α → Prop} (hg : g.Relates T S R) (hts : List.Forall₂ T ts us)
    (h : Derives rules g ts a) : ∃ b, Derives rules g us b ∧ R a b := by
  induction h generalizing us with
  | token tok =>
      obtain ⟨tok', rest, htok, hrest, rfl⟩ := List.forall₂_cons_left_iff.mp hts
      obtain rfl := List.forall₂_nil_left_iff.mp hrest
      exact ⟨tok', derives_token_iff.mpr ⟨rfl, hterminal _ _ htok⟩, hg _ _ rfl htok⟩
  | done a =>
      obtain rfl := List.forall₂_nil_left_iff.mp hts
      exact ⟨a, .done a, hg⟩
  | seq _ _ hp hq =>
      obtain ⟨P, Q, hrelp, hrelq, hpair⟩ := hg
      obtain ⟨left, right, rfl, hleft, hright⟩ := split_of_forall₂ hts
      obtain ⟨b, hb, hrb⟩ := hp hrelp hleft
      obtain ⟨c, hc, hrc⟩ := hq hrelq hright
      exact ⟨(b, c), .seq hb hc, hpair _ _ _ _ hrb hrc⟩
  | left _ hp =>
      obtain ⟨b, hb, hrb⟩ := hp hg.1 hts
      exact ⟨b, .left hb, hrb⟩
  | right _ hq =>
      obtain ⟨b, hb, hrb⟩ := hq hg.2 hts
      exact ⟨b, .right hb, hrb⟩
  | manyNil =>
      obtain ⟨P, -, hlist⟩ := hg
      obtain rfl := List.forall₂_nil_left_iff.mp hts
      exact ⟨[], .manyNil, hlist _ _ .nil⟩
  | manyCons _ _ hp hrest =>
      obtain ⟨P, hrelp, hlist⟩ := hg
      obtain ⟨left, right, rfl, hleft, hright⟩ := split_of_forall₂ hts
      obtain ⟨b, hb, hrb⟩ := hp hrelp hleft
      obtain ⟨bs, hbs, hrbs⟩ := hrest (R := List.Forall₂ P) ⟨P, hrelp, fun _ _ h => h⟩ hright
      exact ⟨b :: bs, .manyCons hb hbs, hlist _ _ (.cons hrb hrbs)⟩
  | map _ hp =>
      obtain ⟨P, hrelp, hmap⟩ := hg
      obtain ⟨b, hb, hrb⟩ := hp hrelp hts
      exact ⟨_, .map hb, hmap _ _ hrb⟩
  | spanned _ hp =>
      obtain ⟨P, hrelp, hspan⟩ := hg
      obtain ⟨b, hb, hrb⟩ := hp hrelp hts
      exact ⟨_, .spanned hb, hspan _ _ hrb⟩
  | @rule n _ _ _ hn =>
      obtain ⟨b, hb, hrb⟩ := hn (hrules n) hts
      exact ⟨b, .rule hb, hg _ _ hrb⟩

end Gram

/-! ## Forgetting places -/

/-- The token without its place. -/
def Token.unplaced (tok : Token) : Token :=
  { tok with start := {}, stop := {} }

/-- Tokens that agree up to their places have one text. -/
theorem Token.string_of_unplaced {tok tok' : Token} (h : tok'.unplaced = tok.unplaced) :
    tok'.string = tok.string := by
  show tok'.unplaced.string = tok.unplaced.string
  rw [h]

/-- A value without its region; `f` forgets the places in the value. -/
def Spanned.unplaced {α : Type} (f : α → α) (a : Spanned α) : Spanned α :=
  ⟨f a.value, ⟨{}, {}⟩⟩

mutual
/-- The type without places. -/
def TypeTree.unplaced : TypeTree → TypeTree
  | .unit => .unit
  | .tuple elems => .tuple (unplacedTypes elems)
  | .ref mutable pointee => .ref mutable pointee.unplaced
  | .fnPtr inputs output => .fnPtr (unplacedTypes inputs) output.unplaced
  | .fnDef path args => .fnDef (unplacedSegments path) (unplacedTypes args)
  | .never => .never
  | .named _ path args => .named ⟨{}, {}⟩ (unplacedSegments path) (unplacedTypes args)

/-- The types without places. -/
def unplacedTypes : List TypeTree → List TypeTree
  | [] => []
  | tree :: trees => tree.unplaced :: unplacedTypes trees

/-- The segment without places. -/
def SegmentTree.unplaced : SegmentTree → SegmentTree
  | .name text => .name text
  | .qualified ty traitPath => .qualified ty.unplaced (unplacedSegments traitPath)

/-- The segments without places. -/
def unplacedSegments : List SegmentTree → List SegmentTree
  | [] => []
  | segment :: segments => segment.unplaced :: unplacedSegments segments
end

/-- The types of a list lose their places one by one. -/
theorem unplaced_types_eq_map (trees : List TypeTree) :
    unplacedTypes trees = trees.map TypeTree.unplaced := by
  induction trees with
  | nil => rfl
  | cons tree trees ih => rw [unplacedTypes, ih, List.map_cons]

/-- The segments of a path lose their places one by one. -/
theorem unplaced_segments_eq_map (path : PathTree) :
    unplacedSegments path = path.map SegmentTree.unplaced := by
  induction path with
  | nil => rfl
  | cons segment path ih => rw [unplacedSegments, ih, List.map_cons]

/-- The literal without places. -/
def LiteralTree.unplaced : LiteralTree → LiteralTree
  | .int tok => .int tok.unplaced
  | .bool value => .bool value
  | .str tok => .str tok.unplaced
  | .unit => .unit

/-- The operand without places. -/
def OperandTree.unplaced : OperandTree → OperandTree
  | .copy slot => .copy slot.unplaced
  | .move slot => .move slot.unplaced
  | .const value ty => .const value.unplaced ty.unplaced
  | .fnItem path args => .fnItem (unplacedSegments path) (unplacedTypes args)

/-- The right-hand side without places. -/
def RvalueTree.unplaced : RvalueTree → RvalueTree
  | .use operand => .use operand.unplaced
  | .binary op lhs rhs => .binary op.unplaced lhs.unplaced rhs.unplaced
  | .ref mutable slot => .ref mutable slot.unplaced
  | .cast operand ty => .cast operand.unplaced ty.unplaced
  | .aggregate ty operands => .aggregate ty.unplaced (operands.map OperandTree.unplaced)

/-- The statement without places. -/
def StatementTree.unplaced : StatementTree → StatementTree
  | .assign slot rvalue => .assign slot.unplaced rvalue.unplaced
  | .storageLive slot => .storageLive slot.unplaced
  | .storageDead slot => .storageDead slot.unplaced
  | .nop => .nop

/-- The arm of a switch without places. -/
def unplacedArm (arm : Token × Token) : Token × Token :=
  (arm.1.unplaced, arm.2.unplaced)

/-- The terminator without places. -/
def TerminatorTree.unplaced : TerminatorTree → TerminatorTree
  | .goto target => .goto target.unplaced
  | .return => .return
  | .unreachable => .unreachable
  | .switch discr arms otherwise =>
    .switch discr.unplaced (arms.map unplacedArm) otherwise.unplaced
  | .call dest func args target =>
    .call dest.unplaced func.unplaced (args.map OperandTree.unplaced) (target.map Token.unplaced)
  | .drop slot target => .drop slot.unplaced target.unplaced
  | .assert cond expected target => .assert cond.unplaced expected target.unplaced

/-- The declaration of a slot without places. -/
def LocalTree.unplaced (tree : LocalTree) : LocalTree :=
  ⟨tree.mutable, tree.slot.unplaced, tree.ty.unplaced⟩

/-- The block without places. -/
def BlockTree.unplaced (tree : BlockTree) : BlockTree :=
  ⟨tree.label.unplaced, tree.statements.map StatementTree.unplaced, tree.terminator.unplaced⟩

/-- The body without places. -/
def BodyTree.unplaced (tree : BodyTree) : BodyTree :=
  ⟨tree.locals.map LocalTree.unplaced, tree.blocks.map BlockTree.unplaced⟩

/-- The type parameter without places. -/
def ParamTree.unplaced (tree : ParamTree) : ParamTree :=
  ⟨tree.name.unplaced, tree.bounds.map unplacedSegments⟩

/-- The signature without places. -/
def SignatureTree.unplaced (tree : SignatureTree) : SignatureTree :=
  ⟨tree.name.unplaced, tree.generics.map (Spanned.unplaced ParamTree.unplaced),
    tree.inputs.map TypeTree.unplaced, tree.output.map TypeTree.unplaced⟩

/-- The method without places. -/
def MethodTree.unplaced (tree : MethodTree) : MethodTree :=
  ⟨tree.signature.unplaced, tree.body.map (Spanned.unplaced BodyTree.unplaced)⟩

/-- The item without places. -/
def ItemTree.unplaced : ItemTree → ItemTree
  | .crate name => .crate name.unplaced
  | .externCrate name signatures =>
    .externCrate name.unplaced (signatures.map (Spanned.unplaced SignatureTree.unplaced))
  | .externFn signature => .externFn signature.unplaced
  | .struct name params => .struct name.unplaced (params.map Token.unplaced)
  | .trait name methods =>
    .trait name.unplaced (methods.map (Spanned.unplaced MethodTree.unplaced))
  | .impl path selfTy methods =>
    .impl (unplacedSegments path) selfTy.unplaced
      (methods.map (Spanned.unplaced MethodTree.unplaced))
  | .fn entry signature body =>
    .fn entry signature.unplaced (body.unplaced BodyTree.unplaced)

/-! ## Alike tokens are read as alike trees -/

/-- What a named rule yields, without places. -/
def unplacedTree : (n : Syntax.Rule) → n.Tree → n.Tree
  | .ty => TypeTree.unplaced
  | .path => unplacedSegments

/-- The part yields values related by `R` if its tokens agree up to places. -/
def Carries {α : Type} (p : Syntax.Part α) (R : α → α → Prop) : Prop :=
  p.Relates (fun tok tok' => tok.unplaced = tok'.unplaced)
    (fun n a a' => unplacedTree n a = unplacedTree n a') R

/-- The part yields values that agree up to places, as `f` forgets them, if its tokens do. -/
def Unplaces {α : Type} (p : Syntax.Part α) (f : α → α) : Prop :=
  Carries p fun a a' => f a = f a'

/-- A function that is yielded, applied to what is yielded behind it. -/
theorem Carries.ap {β δ : Type} {p : Syntax.Part (β → δ)} {q : Syntax.Part β} {g : β → β}
    {R : δ → δ → Prop}
    (hp : Carries p fun F F' => ∀ b b', g b = g b' → R (F b) (F' b')) (hq : Unplaces q g) :
    Carries (p <*> q) R :=
  ⟨fun ab ab' => R (ab.1 ab.2) (ab'.1 ab'.2), ⟨_, _, hp, hq, fun _ _ _ _ hF hb => hF _ _ hb⟩,
    fun _ _ h => h⟩

namespace Unplaces

variable {α β γ δ : Type} {p : Syntax.Part α} {q : Syntax.Part β} {r : Syntax.Part γ} {f : α → α}
  {g : β → β} {h : γ → γ}

/-- A token loses its own place. -/
theorem token (t : Terminal) : Unplaces (.token t) Token.unplaced :=
  fun _ _ _ htok => htok

/-- A value that needs no token. -/
theorem pure (a : α) : Unplaces (Pure.pure a) f :=
  rfl

/-- What both parts of a choice read. -/
theorem choice {p' : Syntax.Part α} (hp : Unplaces p f) (hp' : Unplaces p' f) :
    Unplaces (p <|> p') f :=
  ⟨hp, hp'⟩

/-- The values of a repetition lose their places one by one. -/
theorem many (hp : Unplaces p f) : Unplaces (.many p) (List.map f) := by
  refine ⟨_, hp, fun as as' has => ?_⟩
  show as.map f = as'.map f
  induction has with
  | nil => rfl
  | cons hhead _ ih =>
      rw [List.map_cons, List.map_cons, ih]
      exact congrArg (· :: _) hhead

/-- A value that does not depend on what is read. -/
theorem giving {forget : δ → δ} (hp : Unplaces p f) (b : δ) : Unplaces (p.giving b) forget :=
  ⟨_, hp, fun _ _ _ => rfl⟩

/-- A span is forgotten with the places below it. -/
theorem spanned (hp : Unplaces p f) : Unplaces (.spanned p) (Spanned.unplaced f) :=
  ⟨_, hp, fun a a' (ha : f a.value = f a'.value) => by
    show Spanned.unplaced f a = Spanned.unplaced f a'
    rw [Spanned.unplaced, ha, Spanned.unplaced]⟩

/-- A value that is built from the yield of one part. -/
theorem map {build : α → δ} {forget : δ → δ} (hp : Unplaces p f)
    (hbuild : ∀ a, forget (build a) = build (f a)) : Unplaces (build <$> p) forget :=
  ⟨_, hp, fun a a' (ha : f a = f a') => by
    show forget (build a) = forget (build a')
    rw [hbuild, hbuild, ha]⟩

/-- A value that is built from the yields of two parts. -/
theorem map₂ {build : α → β → δ} {forget : δ → δ} (hp : Unplaces p f) (hq : Unplaces q g)
    (hbuild : ∀ a b, forget (build a b) = build (f a) (g b)) :
    Unplaces (build <$> p <*> q) forget := by
  refine Carries.ap ⟨_, hp, fun a a' (ha : f a = f a') b b' hb => ?_⟩ hq
  rw [hbuild, hbuild, ha, hb]

/-- A value that is built from the yields of three parts. -/
theorem map₃ {build : α → β → γ → δ} {forget : δ → δ} (hp : Unplaces p f) (hq : Unplaces q g)
    (hr : Unplaces r h) (hbuild : ∀ a b c, forget (build a b c) = build (f a) (g b) (h c)) :
    Unplaces (build <$> p <*> q <*> r) forget := by
  refine Carries.ap (Carries.ap ⟨_, hp, fun a a' (ha : f a = f a') b b' hb c c' hc => ?_⟩ hq) hr
  rw [hbuild, hbuild, ha, hb, hc]

/-- A value that is built from the yields of four parts. -/
theorem map₄ {ε : Type} {t : Syntax.Part ε} {k : ε → ε} {build : α → β → γ → ε → δ}
    {forget : δ → δ} (hp : Unplaces p f) (hq : Unplaces q g) (hr : Unplaces r h)
    (ht : Unplaces t k)
    (hbuild : ∀ a b c d, forget (build a b c d) = build (f a) (g b) (h c) (k d)) :
    Unplaces (build <$> p <*> q <*> r <*> t) forget := by
  refine Carries.ap (Carries.ap (Carries.ap
    ⟨_, hp, fun a a' (ha : f a = f a') b b' hb c c' hc d d' hd => ?_⟩ hq) hr) ht
  rw [hbuild, hbuild, ha, hb, hc, hd]

/-- Of two parts only what the first reads is kept. -/
theorem seq_left (hp : Unplaces p f) (hq : Unplaces q g) : Unplaces (p <* q) f :=
  ⟨fun ab ab' => f ab.1 = f ab'.1, ⟨_, _, hp, hq, fun _ _ _ _ ha _ => ha⟩, fun _ _ hab => hab⟩

/-- Of two parts only what the second reads is kept. -/
theorem seq_right (hp : Unplaces p f) (hq : Unplaces q g) : Unplaces (p *> q) g :=
  ⟨fun ab ab' => g ab.2 = g ab'.2, ⟨_, _, hp, hq, fun _ _ _ _ _ hb => hb⟩, fun _ _ hab => hab⟩

theorem kw (keyword : Keyword) : Unplaces (Syntax.kw keyword) Token.unplaced :=
  token _

theorem mark (m : Mark) : Unplaces (Syntax.mark m) Token.unplaced :=
  token _

/-- A value that may be left out. -/
theorem optional (hp : Unplaces p f) : Unplaces (Syntax.optional p) (Option.map f) :=
  .choice (.map hp fun _ => rfl) (.pure _)

/-- Whether a part is there does not depend on places. -/
theorem present (hp : Unplaces p f) : Unplaces (Syntax.present p) id :=
  .choice (.map hp fun _ => rfl) (.pure _)

/-- A list that may be left out. -/
theorem or_nothing {p : Syntax.Part (List α)} {f : List α → List α} (hp : Unplaces p f) :
    Unplaces (Syntax.orNothing p) f :=
  hp.choice (.pure _)

/-- The values between separators. -/
theorem separated (hp : Unplaces p f) (m : Mark) :
    Unplaces (Syntax.separated m p) (List.map f) :=
  .map₂ hp (.many (.seq_right (.mark m) hp)) fun _ _ => rfl

/-- The values of a list in parentheses. -/
theorem parenthesised (hp : Unplaces p f) : Unplaces (Syntax.parenthesised p) (List.map f) :=
  .seq_left (.seq_right (.mark .parenOpen) (.or_nothing (.separated hp .comma)))
    (.mark .parenClose)

/-- The values of a list in angle brackets. -/
theorem angled (hp : Unplaces p f) : Unplaces (Syntax.angled p) (List.map f) :=
  .seq_left (.seq_right (.mark .angleOpen) (.separated hp .comma)) (.mark .angleClose)

/-! ### Types and paths -/

theorem ty : Unplaces Syntax.ty TypeTree.unplaced :=
  fun _ _ h => h

theorem path : Unplaces Syntax.path unplacedSegments :=
  fun _ _ h => h

theorem type_args : Unplaces Syntax.typeArgs unplacedTypes := by
  rw [funext unplaced_types_eq_map]
  exact ty.angled.or_nothing

theorem tuple_rest : Unplaces Syntax.tupleRest unplacedTypes := by
  rw [funext unplaced_types_eq_map]
  exact .seq_right (.mark .comma)
    (.choice (.giving (.mark .parenClose) _) (.seq_left (.separated ty .comma) (.mark .parenClose)))

theorem paren_rest : Unplaces Syntax.parenRest TypeTree.unplaced :=
  .choice (.giving (.mark .parenClose) _) (.map₂ ty tuple_rest fun _ _ => rfl)

theorem named_ty : Unplaces Syntax.namedTy TypeTree.unplaced :=
  have hpair : Unplaces (Prod.mk <$> Syntax.path <*> Syntax.typeArgs)
      (Prod.map unplacedSegments unplacedTypes) :=
    .map₂ path type_args fun _ _ => rfl
  .map (.spanned hpair) fun _ => rfl

theorem segment : Unplaces Syntax.segment SegmentTree.unplaced :=
  .choice (.map (.token .name) fun _ => rfl)
    (.map₂ (.seq_right (.mark .angleOpen) ty)
      (.seq_left (.seq_right (.kw .asKw) path) (.mark .angleClose)) fun _ _ => rfl)

/-- What the named rules yield agrees up to places if the tokens do. -/
theorem definition (n : Syntax.Rule) : Unplaces (Syntax.definition n) (unplacedTree n) := by
  cases n with
  | ty =>
      refine .choice (.seq_right (.mark .parenOpen) paren_rest) (.choice ?ref (.choice ?fnPtr
        (.choice ?fnDef (.choice (.giving (.mark .bang) _) named_ty))))
      case ref =>
        exact .map₂ (.seq_right (.mark .ampersand) (.present (.kw .mutKw))) ty fun _ _ => rfl
      case fnPtr =>
        refine .map₂ (.seq_right (.kw .fnKw) (.parenthesised ty)) (.seq_right (.mark .arrow) ty)
          fun inputs output => ?_
        rw [unplacedTree, TypeTree.unplaced, unplaced_types_eq_map]
      case fnDef => exact .map₂ (.seq_right (.kw .fndefKw) path) type_args fun _ _ => rfl
  | path =>
      show Unplaces (Syntax.separated .pathSep Syntax.segment) unplacedSegments
      rw [funext unplaced_segments_eq_map]
      exact .separated segment .pathSep

/-! ### Bodies -/

theorem bool : Unplaces Syntax.bool id :=
  .choice (.giving (.kw .trueKw) _) (.giving (.kw .falseKw) _)

theorem literal : Unplaces Syntax.literal LiteralTree.unplaced :=
  .choice (.map (.token .integer) fun _ => rfl) (.choice (.map bool fun _ => rfl)
    (.choice (.map (.token .string) fun _ => rfl)
      (.giving (.seq_right (.mark .parenOpen) (.mark .parenClose)) _)))

/-- Operands, form by form. -/
theorem operand : Unplaces Syntax.operand OperandTree.unplaced :=
  .choice (.map (.seq_right (.kw .copyKw) (.token .slot)) fun _ => rfl)
    (.choice (.map (.seq_right (.kw .moveKw) (.token .slot)) fun _ => rfl)
      (.choice (.map₂ (.seq_right (.kw .constKw) literal) (.seq_right (.mark .colon) ty)
          fun _ _ => rfl)
        (.map₂ (.seq_right (.kw .fndefKw) path) type_args fun _ _ => rfl)))

/-- Right-hand sides, form by form. -/
theorem rvalue : Unplaces Syntax.rvalue RvalueTree.unplaced := by
  refine .choice ?binary (.choice ?ref (.choice ?cast (.choice ?aggregate ?use)))
  case binary =>
    exact .map₃ (.token .name) (.seq_right (.mark .parenOpen) operand)
      (.seq_left (.seq_right (.mark .comma) operand) (.mark .parenClose)) fun _ _ _ => rfl
  case ref =>
    exact .map₂ (.seq_right (.mark .ampersand) (.present (.kw .mutKw))) (.token .slot)
      fun _ _ => rfl
  case cast =>
    exact .map₂ (.seq_right (.seq_right (.kw .castKw) (.mark .parenOpen)) operand)
      (.seq_left (.seq_right (.kw .asKw) ty) (.mark .parenClose)) fun _ _ => rfl
  case aggregate =>
    exact .map₂ (.seq_right (.kw .aggregateKw) ty) (.parenthesised operand) fun _ _ => rfl
  case use => exact .map operand fun _ => rfl

/-- Statements, form by form. -/
theorem statement : Unplaces Syntax.statement StatementTree.unplaced := by
  have hstorage (keyword : Keyword) : Unplaces (Syntax.kw keyword *> Syntax.mark .parenOpen *>
      .token .slot <* Syntax.mark .parenClose <* Syntax.mark .semicolon) Token.unplaced :=
    .seq_left (.seq_left (.seq_right (.seq_right (.kw keyword) (.mark .parenOpen)) (.token .slot))
      (.mark .parenClose)) (.mark .semicolon)
  exact .choice (.map₂ (.token .slot)
      (.seq_left (.seq_right (.mark .assign) rvalue) (.mark .semicolon)) fun _ _ => rfl)
    (.choice (.map (hstorage .storageLiveKw) fun _ => rfl)
      (.choice (.map (hstorage .storageDeadKw) fun _ => rfl)
        (.giving (.seq_right (.kw .nopKw) (.mark .semicolon)) _)))

theorem arm : Unplaces Syntax.arm unplacedArm :=
  .map₂ (.token .integer)
    (.seq_left (.seq_right (.mark .colon) (.token .blockRef)) (.mark .comma)) fun _ _ => rfl

theorem target : Unplaces Syntax.target Token.unplaced :=
  .seq_left (.seq_right (.mark .arrow) (.token .blockRef)) (.mark .semicolon)

theorem call_target : Unplaces Syntax.callTarget (Option.map Token.unplaced) :=
  .seq_left (.seq_right (.mark .arrow)
    (.choice (.map (.token .blockRef) fun _ => rfl) (.giving (.mark .bang) _))) (.mark .semicolon)

/-- Terminators, form by form. -/
theorem terminator : Unplaces Syntax.terminator TerminatorTree.unplaced := by
  refine .choice (.map (.seq_right (.kw .gotoKw) target) fun _ => rfl)
    (.choice (.giving (.seq_right (.kw .returnKw) (.mark .semicolon)) _)
      (.choice (.giving (.seq_right (.kw .unreachableKw) (.mark .semicolon)) _)
        (.choice ?switch (.choice ?call (.choice ?drop ?assert)))))
  case switch =>
    refine .map₃ (.seq_left (.seq_right (.seq_right (.kw .switchIntKw) (.mark .parenOpen)) operand)
        (.mark .parenClose))
      (.seq_right (.seq_right (.mark .arrow) (.mark .bracketOpen)) (.many arm))
      (.seq_left (.seq_left (.seq_right (.seq_right (.kw .otherwiseKw) (.mark .colon))
        (.token .blockRef)) (.mark .bracketClose)) (.mark .semicolon)) fun _ _ _ => rfl
  case call =>
    exact .map₄ (.seq_right (.kw .callKw) (.token .slot)) (.seq_right (.mark .assign) operand)
      (.parenthesised operand) call_target fun _ _ _ _ => rfl
  case drop =>
    exact .map₂ (.seq_left (.seq_right (.seq_right (.kw .dropKw) (.mark .parenOpen)) (.token .slot))
      (.mark .parenClose)) target fun _ _ => rfl
  case assert =>
    exact .map₃ (.seq_right (.seq_right (.kw .assertKw) (.mark .parenOpen)) operand)
      (.seq_left (.seq_right (.mark .comma) bool) (.mark .parenClose)) target fun _ _ _ => rfl

theorem local_decl : Unplaces Syntax.localDecl LocalTree.unplaced :=
  .map₃ (.seq_right (.kw .letKw) (.present (.kw .mutKw))) (.token .slot)
    (.seq_left (.seq_right (.mark .colon) ty) (.mark .semicolon)) fun _ _ _ => rfl

theorem block : Unplaces Syntax.block BlockTree.unplaced :=
  .map₃ (.seq_left (.seq_left (.token .blockRef) (.mark .colon)) (.mark .braceOpen))
    (.many statement) (.seq_left terminator (.mark .braceClose)) fun _ _ _ => rfl

/-- Bodies, with their declarations of slots and their blocks. -/
theorem body : Unplaces Syntax.body (Spanned.unplaced BodyTree.unplaced) :=
  .spanned (.map₂ (.seq_right (.mark .braceOpen) (.many local_decl))
    (.seq_left (.many block) (.mark .braceClose)) fun _ _ => rfl)

/-! ### Items -/

theorem generic_param : Unplaces Syntax.genericParam (Spanned.unplaced ParamTree.unplaced) :=
  .spanned (.map₂ (.token .name)
    (.or_nothing (.seq_right (.mark .colon) (.separated path .plus))) fun _ _ => rfl)

theorem signature : Unplaces Syntax.signature SignatureTree.unplaced :=
  .map₄ (.token .name) (.or_nothing (.angled generic_param)) (.parenthesised ty)
    (.optional (.seq_right (.mark .arrow) ty)) fun _ _ _ _ => rfl

theorem extern_signature :
    Unplaces Syntax.externSignature (Spanned.unplaced SignatureTree.unplaced) :=
  .spanned (.seq_left (.seq_right (.kw .fnKw) signature) (.mark .semicolon))

theorem trait_method : Unplaces Syntax.traitMethod (Spanned.unplaced MethodTree.unplaced) :=
  .spanned (.map₂ (.seq_right (.kw .fnKw) signature)
    (.choice (.giving (.mark .semicolon) _) (.map body fun _ => rfl)) fun _ _ => rfl)

theorem impl_method : Unplaces Syntax.implMethod (Spanned.unplaced MethodTree.unplaced) :=
  have hbody : Unplaces (some <$> Syntax.body) (Option.map (Spanned.unplaced BodyTree.unplaced)) :=
    .map body fun _ => rfl
  .spanned (.map₂ (.seq_right (.kw .fnKw) signature) hbody fun _ _ => rfl)

theorem extern_crate : Unplaces Syntax.externCrate ItemTree.unplaced :=
  .map₂ (.seq_left (.seq_right (.kw .crateKw) (.token .name)) (.mark .braceOpen))
    (.seq_left (.many extern_signature) (.mark .braceClose)) fun _ _ => rfl

theorem extern_fn : Unplaces Syntax.externFn ItemTree.unplaced :=
  .map (.seq_left (.seq_right (.kw .fnKw) signature) (.mark .semicolon)) fun _ => rfl

/-- Items, form by form. -/
theorem item : Unplaces Syntax.item (Spanned.unplaced ItemTree.unplaced) := by
  refine .spanned (.choice ?crate (.choice (.seq_right (.kw .externKw) (.choice extern_crate
    extern_fn)) (.choice ?struct (.choice ?trait (.choice ?impl ?fn)))))
  case crate =>
    exact .map (.seq_left (.seq_right (.kw .crateKw) (.token .name)) (.mark .semicolon))
      fun _ => rfl
  case struct =>
    exact .map₂ (.seq_right (.kw .structKw) (.token .name))
      (.seq_left (.or_nothing (.angled (.token .name))) (.mark .semicolon)) fun _ _ => rfl
  case trait =>
    exact .map₂ (.seq_left (.seq_right (.kw .traitKw) (.token .name)) (.mark .braceOpen))
      (.seq_left (.many trait_method) (.mark .braceClose)) fun _ _ => rfl
  case impl =>
    exact .map₃ (.seq_right (.kw .implKw) path)
      (.seq_left (.seq_right (.kw .forKw) ty) (.mark .braceOpen))
      (.seq_left (.many impl_method) (.mark .braceClose)) fun _ _ _ => rfl
  case fn =>
    exact .map₃ (.present (.kw .entryKw)) (.seq_right (.kw .fnKw) signature) body
      fun _ _ _ => rfl

end Unplaces

/-- Tokens that agree up to their places are read as values that agree up to places. -/
theorem Unplaces.derives {α : Type} {p : Syntax.Part α} {f : α → α} (hp : Unplaces p f)
    {ts us : List Token} {a : α} (hts : ts.map Token.unplaced = us.map Token.unplaced)
    (h : Gram.Derives Syntax.definition p ts a) :
    ∃ b, Gram.Derives Syntax.definition p us b ∧ f a = f b := by
  have hterminal (tok tok' : Token) (heq : tok.unplaced = tok'.unplaced) :
      tok'.terminal = tok.terminal := by
    show tok'.unplaced.terminal = tok.unplaced.terminal
    rw [heq]
  have hall : List.Forall₂ Eq (ts.map Token.unplaced) (us.map Token.unplaced) := by
    rwa [List.forall₂_eq_eq_eq]
  exact Gram.Relates.derives hterminal Unplaces.definition hp
    (List.forall₂_map_right_iff.mp (List.forall₂_map_left_iff.mp hall)) h

end MirAudit.Source
