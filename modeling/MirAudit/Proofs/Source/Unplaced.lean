import MirAudit.Proofs.Source.Functions
import MirAudit.Proofs.Source.Names
import MirAudit.Proofs.Source.Places

/-!
# Places do not change what a tree denotes

A tree denotes the same without its places, and in any scope that knows the same crates and binds
the same types. Only the regions of faults differ, so the lemmas are about what is built, not about
why something is rejected. Read `FnSource.lower_alike` first.
-/

namespace MirAudit.Source

/-- The two scopes know the same crates and bind the same types. -/
structure Scope.Alike (s s' : Scope) : Prop extends s.SameCrates s' where
  types : s'.types = s.types

/-- A scope is like itself. -/
theorem Scope.Alike.refl (s : Scope) : s.Alike s :=
  ⟨⟨rfl, fun _ => Iff.rfl⟩, rfl⟩

/-- Scopes that are alike stay so when both bind a name to the same type. -/
theorem Scope.Alike.bind {s s' : Scope} (h : s.Alike s') (name : String) (ty : Ty) :
    (s.bind name ty).Alike (s'.bind name ty) :=
  ⟨⟨h.localCrate, h.crates⟩, congrArg ((name, ty) :: ·) h.types⟩

/-- A single name means the same in scopes that are alike. -/
theorem Scope.Alike.single {s s' : Scope} (h : s.Alike s') (name : String) :
    s'.single? name = s.single? name :=
  single_congr (by rw [h.types])

variable {s s' : Scope}

/-! ## Types -/

/-- Types denote the same without their places if each of them does. -/
theorem lower_types_alike {trees : List TypeTree} {tys : List Ty}
    (h : ∀ tree ∈ trees, ∀ ty, tree.unplaced.lower s' = .ok ty ↔ tree.lower s = .ok ty) :
    lowerTypes s' (unplacedTypes trees) = .ok tys ↔ lowerTypes s trees = .ok tys := by
  rw [unplaced_types_eq_map, lower_types_eq_map_m, lower_types_eq_map_m]
  exact Outcome.map_m_congr h

/-- Segments have the same texts without their places if each of them does. -/
theorem lower_segments_alike {path : PathTree} {texts : List String}
    (h : ∀ segment ∈ path, ∀ text, segment.unplaced.lower s' = .ok text ↔
      segment.lower s = .ok text) :
    lowerSegments s' (unplacedSegments path) = .ok texts ↔ lowerSegments s path = .ok texts := by
  rw [unplaced_segments_eq_map, lower_segments_eq_map_m, lower_segments_eq_map_m]
  exact Outcome.map_m_congr h

/-- Types and segments are built alike, by induction on both at once. -/
theorem lower_alike (hs : s.Alike s') :
    (∀ tree : TypeTree, ∀ ty, tree.unplaced.lower s' = .ok ty ↔ tree.lower s = .ok ty) ∧
    ∀ segment : SegmentTree, ∀ text,
      segment.unplaced.lower s' = .ok text ↔ segment.lower s = .ok text := by
  refine tree_induction ?unit ?tuple ?ref ?fnPtr ?fnDef ?never ?named ?name ?qualified
  case unit | never | name => intros; exact Iff.rfl
  case tuple =>
    intro elems ih ty
    simp only [TypeTree.unplaced, TypeTree.lower, Outcome.bind_eq_ok, lower_types_alike ih]
  case ref =>
    intro mutable pointee ih ty
    simp only [TypeTree.unplaced, TypeTree.lower, Outcome.bind_eq_ok, ih]
  case fnPtr =>
    intro inputs output hinputs houtput ty
    simp only [TypeTree.unplaced, TypeTree.lower, Outcome.bind_eq_ok, lower_types_alike hinputs,
      houtput]
  case fnDef =>
    intro path args hpath hargs ty
    simp only [TypeTree.unplaced, TypeTree.lower, Outcome.bind_eq_ok, lower_segments_alike hpath,
      lower_types_alike hargs, hs.def_of]
  case named =>
    intro region path args hpath hargs ty
    simp only [TypeTree.unplaced, named_lower_eq_ok, lower_segments_alike hpath,
      lower_types_alike hargs, hs.single]
  case qualified =>
    intro ty traitPath hty hpath text
    simp only [SegmentTree.unplaced, SegmentTree.lower, Outcome.bind_eq_ok, hty,
      lower_segments_alike hpath, hs.def_of]

/-- A type denotes the same without its places. -/
theorem TypeTree.lower_alike (hs : s.Alike s') {tree : TypeTree} {ty : Ty} :
    tree.unplaced.lower s' = .ok ty ↔ tree.lower s = .ok ty :=
  (Source.lower_alike hs).1 tree ty

/-- Types denote the same without their places. -/
theorem lower_all_types_alike (hs : s.Alike s') {trees : List TypeTree} {tys : List Ty} :
    lowerTypes s' (unplacedTypes trees) = .ok tys ↔ lowerTypes s trees = .ok tys :=
  lower_types_alike fun _ _ _ => TypeTree.lower_alike hs

/-- A path names the same definition without its places. -/
theorem lower_def_alike (hs : s.Alike s') {path : PathTree} {id : DefId} :
    lowerDef s' (unplacedSegments path) = .ok id ↔ lowerDef s path = .ok id := by
  simp only [lowerDef, Outcome.bind_eq_ok, Outcome.pure_eq_ok, hs.def_of,
    lower_segments_alike fun segment _ => (Source.lower_alike hs).2 segment]

/-! ## Parts of blocks -/

variable {count : Nat}

/-- A slot has the same number without its place, and is declared or not. -/
theorem lower_slot_alike {tok : Token} {n : Nat} :
    lowerSlot ⟨s', count⟩ tok.unplaced = .ok n ↔ lowerSlot ⟨s, count⟩ tok = .ok n := by
  simp only [lower_slot_eq_ok]
  exact Iff.rfl

/-- A literal denotes the same constant without its place. -/
theorem LiteralTree.lower_alike {tree : LiteralTree} {value : Const} :
    tree.unplaced.lower = .ok value ↔ tree.lower = .ok value := by
  cases tree with
  | int tok | bool value | unit => exact Iff.rfl
  | str tok =>
      have htext : tok.unplaced.text = tok.text := rfl
      unfold unplaced lower
      dsimp only
      rw [htext]
      cases Literal.decode tok.text with
      | some text => exact Iff.rfl
      | none => exact iff_of_false Outcome.not_throw_eq_ok Outcome.not_throw_eq_ok

/-- An operand is the same without its places. -/
theorem OperandTree.lower_alike (hs : s.Alike s') {tree : OperandTree} {operand : Operand} :
    tree.unplaced.lower ⟨s', count⟩ = .ok operand ↔ tree.lower ⟨s, count⟩ = .ok operand := by
  cases tree with
  | copy slot | move slot =>
      simp only [unplaced, lower, Outcome.bind_eq_ok, lower_slot_alike (s := s)]
  | const value ty =>
      simp only [unplaced, lower, Outcome.bind_eq_ok, TypeTree.lower_alike hs,
        LiteralTree.lower_alike]
  | fnItem path args =>
      simp only [unplaced, lower, Outcome.bind_eq_ok, lower_def_alike hs,
        lower_all_types_alike hs]

/-- Operands are the same without their places. -/
theorem OperandTree.lower_all_alike (hs : s.Alike s') {trees : List OperandTree}
    {operands : List Operand} :
    (trees.map OperandTree.unplaced).mapM (OperandTree.lower ⟨s', count⟩) = .ok operands ↔
      trees.mapM (OperandTree.lower ⟨s, count⟩) = .ok operands :=
  Outcome.map_m_congr fun _ _ _ => lower_alike hs

/-- A right-hand side is the same without its places. -/
theorem RvalueTree.lower_alike (hs : s.Alike s') {tree : RvalueTree} {rvalue : Rvalue} :
    tree.unplaced.lower ⟨s', count⟩ = .ok rvalue ↔ tree.lower ⟨s, count⟩ = .ok rvalue := by
  cases tree with
  | use operand => simp only [unplaced, lower, Outcome.bind_eq_ok, OperandTree.lower_alike hs]
  | binary op lhs rhs =>
      simp only [unplaced, lower, Outcome.bind_eq_ok, OperandTree.lower_alike hs]
      exact Iff.rfl
  | ref mutable slot =>
      simp only [unplaced, lower, Outcome.bind_eq_ok, lower_slot_alike (s := s)]
  | cast operand ty =>
      simp only [unplaced, lower, Outcome.bind_eq_ok, OperandTree.lower_alike hs,
        TypeTree.lower_alike hs]
  | aggregate ty operands =>
      simp only [unplaced, lower, Outcome.bind_eq_ok, OperandTree.lower_all_alike hs,
        TypeTree.lower_alike hs]

/-- A statement is the same without its places. -/
theorem StatementTree.lower_alike (hs : s.Alike s') {tree : StatementTree}
    {statement : Statement} :
    tree.unplaced.lower ⟨s', count⟩ = .ok statement ↔ tree.lower ⟨s, count⟩ = .ok statement := by
  cases tree with
  | assign slot rvalue =>
      simp only [unplaced, lower, Outcome.bind_eq_ok, lower_slot_alike (s := s),
        RvalueTree.lower_alike hs]
  | storageLive slot | storageDead slot =>
      simp only [unplaced, lower, Outcome.bind_eq_ok, lower_slot_alike (s := s)]
  | nop => exact Iff.rfl

/-- The arms of a switch are the same without their places. -/
theorem lower_arms_alike {arms : List (Token × Token)} {targets : List (Int × BlockNumber)} :
    (arms.map unplacedArm).mapM lowerArm = .ok targets ↔ arms.mapM lowerArm = .ok targets :=
  Outcome.map_m_congr fun _ _ _ => Iff.rfl

/-- The block that a call returns to is the same without its place. -/
theorem lower_call_target_alike {target : Option Token} {block : Option BlockNumber} :
    lowerCallTarget (target.map Token.unplaced) = .ok block ↔ lowerCallTarget target = .ok block := by
  cases target <;> exact Iff.rfl

/-- A terminator is the same without its places. -/
theorem TerminatorTree.lower_alike (hs : s.Alike s') {tree : TerminatorTree}
    {terminator : Terminator} :
    tree.unplaced.lower ⟨s', count⟩ = .ok terminator ↔
      tree.lower ⟨s, count⟩ = .ok terminator := by
  cases tree with
  | goto target | «return» | unreachable => exact Iff.rfl
  | switch discr arms otherwise =>
      simp only [unplaced, lower, Outcome.bind_eq_ok, OperandTree.lower_alike hs, lower_arms_alike]
      exact Iff.rfl
  | call dest func args target =>
      simp only [unplaced, lower, Outcome.bind_eq_ok, OperandTree.lower_alike hs,
        OperandTree.lower_all_alike hs, lower_slot_alike (s := s), lower_call_target_alike]
  | drop slot target =>
      simp only [unplaced, lower, Outcome.bind_eq_ok, lower_slot_alike (s := s)]
      exact Iff.rfl
  | assert cond expected target =>
      simp only [unplaced, lower, Outcome.bind_eq_ok, OperandTree.lower_alike hs]
      exact Iff.rfl

/-! ## Bodies -/

/-- Declarations of slots are the same without their places. -/
theorem lower_locals_alike (hs : s.Alike s') {next : Nat} {trees : List LocalTree}
    {locals : List LocalDecl} :
    lowerLocals s' next (trees.map LocalTree.unplaced) = .ok locals ↔
      lowerLocals s next trees = .ok locals := by
  induction trees generalizing next locals with
  | nil => exact Iff.rfl
  | cons tree trees ih =>
      simp only [List.map_cons, lower_locals_cons_eq_ok, LocalTree.unplaced,
        TypeTree.lower_alike hs, ih]
      exact Iff.rfl

/-- Blocks are the same without their places. -/
theorem lower_blocks_alike (hs : s.Alike s') {next : Nat} {trees : List BlockTree}
    {blocks : List Block} :
    lowerBlocks ⟨s', count⟩ next (trees.map BlockTree.unplaced) = .ok blocks ↔
      lowerBlocks ⟨s, count⟩ next trees = .ok blocks := by
  induction trees generalizing next blocks with
  | nil => exact Iff.rfl
  | cons tree trees ih =>
      have hstatements {statements : List Statement} :
          (tree.statements.map StatementTree.unplaced).mapM (StatementTree.lower ⟨s', count⟩) =
              .ok statements ↔
            tree.statements.mapM (StatementTree.lower ⟨s, count⟩) = .ok statements :=
        Outcome.map_m_congr fun _ _ _ => StatementTree.lower_alike hs
      simp only [List.map_cons, lower_blocks_cons_eq_ok, BlockTree.unplaced, hstatements,
        TerminatorTree.lower_alike hs, ih]
      exact Iff.rfl

/-- A body is the same without its places. -/
theorem BodyTree.lower_alike (hs : s.Alike s') {sig : Signature} {tree : Spanned BodyTree}
    {body : Body} :
    BodyTree.lower s' sig (tree.unplaced BodyTree.unplaced) = .ok body ↔
      BodyTree.lower s sig tree = .ok body := by
  simp only [BodyTree.lower_eq_ok, Spanned.unplaced, BodyTree.unplaced, lower_locals_alike hs,
    lower_blocks_alike hs]

/-- A body that may be missing is the same without its places. -/
theorem lower_body_alike (hs : s.Alike s') {sig : Signature} {tree : Option (Spanned BodyTree)}
    {body : Option Body} :
    lowerBody s' sig (tree.map (Spanned.unplaced BodyTree.unplaced)) = .ok body ↔
      lowerBody s sig tree = .ok body := by
  cases tree with
  | none => exact Iff.rfl
  | some tree => simp only [Option.map_some, lowerBody, Outcome.map_eq_ok, BodyTree.lower_alike hs]

/-! ## Signatures -/

/-- A type parameter is the same without its places. -/
theorem ParamTree.lower_alike (hs : s.Alike s') {tree : ParamTree} {param : GenericParam} :
    tree.unplaced.lower s' = .ok param ↔ tree.lower s = .ok param := by
  have hbounds {bounds : List DefId} :
      (tree.bounds.map unplacedSegments).mapM (lowerDef s') = .ok bounds ↔
        tree.bounds.mapM (lowerDef s) = .ok bounds :=
    Outcome.map_m_congr fun _ _ _ => lower_def_alike hs
  simp only [ParamTree.lower, unplaced, Outcome.bind_eq_ok, hbounds]
  exact Iff.rfl

/-- Whether a parameter occurs twice does not depend on places. -/
theorem duplicate_param_unplaced {seen : List String} {trees : List (Spanned ParamTree)} :
    duplicateParam? seen (trees.map (Spanned.unplaced ParamTree.unplaced)) = none ↔
      duplicateParam? seen trees = none := by
  induction trees generalizing seen with
  | nil => exact Iff.rfl
  | cons tree trees ih =>
      rw [List.map_cons, duplicateParam?, duplicateParam?]
      show (if tree.value.name.string ∈ seen then _ else _) = none ↔
        (if tree.value.name.string ∈ seen then _ else _) = none
      split
      · exact iff_of_false nofun nofun
      · exact ih

/-- Scopes that are alike stay so when both bind the same parameters. -/
theorem Scope.Alike.bind_params (hs : s.Alike s') (generics : List GenericParam) :
    (s.bindParams generics).Alike (s'.bindParams generics) := by
  unfold bindParams
  induction generics generalizing s s' with
  | nil => exact hs
  | cons param generics ih => exact ih (hs.bind _ _)

/-- The scope of a body is what the signature opens. -/
theorem SignatureTree.scope_eq {outer scope : Scope} {tree : SignatureTree} {sig : Signature}
    (h : tree.lower outer = .ok (sig, scope)) : scope = outer.bindParams sig.generics := by
  obtain ⟨_, _, _, -, -, rfl, -, -, rfl⟩ := SignatureTree.lower_eq_ok.mp h
  rfl

/-- A signature is the same without its places. -/
theorem SignatureTree.lower_alike (hs : s.Alike s') {tree : SignatureTree} {sig : Signature} :
    tree.unplaced.lower s' = .ok (sig, s'.bindParams sig.generics) ↔
      tree.lower s = .ok (sig, s.bindParams sig.generics) := by
  have hgenerics {generics : List GenericParam} :
      ((tree.generics.map (Spanned.unplaced ParamTree.unplaced)).mapM
          fun param => param.value.lower s') = .ok generics ↔
        (tree.generics.mapM fun param => param.value.lower s) = .ok generics :=
    Outcome.map_m_congr fun _ _ _ => ParamTree.lower_alike hs
  have hscope := hs.bind_params sig.generics
  have houtput {output : Ty} :
      lowerOutput (s'.bindParams sig.generics) (tree.output.map TypeTree.unplaced) = .ok output ↔
        lowerOutput (s.bindParams sig.generics) tree.output = .ok output := by
    cases tree.output with
    | none => exact Iff.rfl
    | some tree => exact TypeTree.lower_alike hscope
  simp only [SignatureTree.lower_eq_ok, unplaced, hgenerics, duplicate_param_unplaced,
    ← unplaced_types_eq_map]
  constructor
  · intro h
    obtain ⟨generics, inputs, output, hparams, hfresh, -, hinputs, hout, rfl⟩ := h
    exact ⟨generics, inputs, output, hparams, hfresh, rfl,
      (lower_all_types_alike hscope).mp hinputs, houtput.mp hout, rfl⟩
  · intro h
    obtain ⟨generics, inputs, output, hparams, hfresh, -, hinputs, hout, rfl⟩ := h
    exact ⟨generics, inputs, output, hparams, hfresh, rfl,
      (lower_all_types_alike hscope).mpr hinputs, houtput.mpr hout, rfl⟩

/-! ## Functions -/

/-- The two declarations differ only in places, and in scopes that are alike. -/
structure FnSource.Alike (src src' : FnSource) : Prop where
  defId : src'.defId = src.defId
  signature : src'.signature.unplaced = src.signature.unplaced
  body : src'.body.map (Spanned.unplaced BodyTree.unplaced) =
    src.body.map (Spanned.unplaced BodyTree.unplaced)
  outer : src.outer.Alike src'.outer
  implicit : src'.implicit = src.implicit
  traitDef : src'.traitDef = src.traitDef
  isExtern : src'.isExtern = src.isExtern

/-- Declarations that differ only in places give functions that differ only in their spans. -/
theorem FnSource.lower_alike {src src' : FnSource} (h : src.Alike src') {fn : FnDecl}
    (hlower : src.lower = .ok fn) : src'.lower = .ok { fn with span := src'.span } := by
  obtain ⟨sig, scope, body, hsig, hbody, rfl⟩ := FnSource.lower_eq_ok.mp hlower
  obtain rfl := SignatureTree.scope_eq hsig
  have hsame := Scope.Alike.refl src'.outer
  rw [← SignatureTree.lower_alike h.outer, ← h.signature, SignatureTree.lower_alike hsame] at hsig
  rw [← lower_body_alike (h.outer.bind_params _), ← h.body,
    lower_body_alike (hsame.bind_params _)] at hbody
  refine FnSource.lower_eq_ok.mpr ⟨sig, _, body, hsig, hbody, ?_⟩
  simp only [FnSource.toFn, Signature.toFn, h.defId, h.implicit, h.traitDef, h.isExtern]

end MirAudit.Source
