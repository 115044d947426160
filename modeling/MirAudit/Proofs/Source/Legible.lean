import MirAudit.Proofs.Source.Ensures
import MirAudit.Proofs.Source.Names
import MirAudit.Proofs.Source.TypePhrases
import MirAudit.Proofs.Ty.Parts

/-!
# Printed types are unambiguous

A type is legible if the names in it are spelled as such. Then its printed form can be read as a
type, and says which type it is (`Ty.Legible.phrase`). What is said is the literal reading: it takes
names for what they are and looks nothing up, so it does not depend on a scope, and a parameter
reads like a type of its name. Legible types without parameters differ in their printed forms, see
`Ty.Legible.eq_of_render`. What a type as written denotes is legible, see
`TypeTree.legible_of_derives`; a segment `<Type as Trait>` holds the printed form of a type as text,
and is legible because that type is.
-/

namespace MirAudit

/-! ## Literal readings -/

namespace Ty

/-- The type of a name that nothing is bound to. -/
def named (name : String) (args : List Ty) : Ty :=
  if name ∈ scalarNames then .scalar name else .adt name args

mutual
/-- The type as its printed form says: a parameter reads like a type of its name. -/
def literal : Ty → Ty
  | .scalar name => .scalar name
  | .adt name args => .adt name (literalAll args)
  | .ref pointee mutable => .ref pointee.literal mutable
  | .tuple elems => .tuple (literalAll elems)
  | .param name => .named name []
  | .fnDef callee args => .fnDef callee (literalAll args)
  | .fnPtr inputs output => .fnPtr (literalAll inputs) output.literal

/-- Each type as its printed form says. -/
def literalAll : List Ty → List Ty
  | [] => []
  | t :: ts => t.literal :: literalAll ts
end

theorem render_named (name : String) : (named name []).render = name := by
  unfold named
  split
  · rfl
  · rw [render, renderAll, renderArgs, String.append_empty]

mutual
/-- The literal reading is printed alike. -/
theorem render_literal : ∀ t : Ty, t.literal.render = t.render
  | .scalar _ => rfl
  | .adt name args => by rw [literal, render, render, render_all_literal args]
  | .ref pointee mutable => by rw [literal, render, render, render_literal pointee]
  | .tuple elems => by rw [literal, render, render, render_all_literal elems]
  | .param name => render_named name
  | .fnDef callee args => by rw [literal, render, render, render_all_literal args]
  | .fnPtr inputs output => by
    rw [literal, render, render, render_all_literal inputs, render_literal output]

theorem render_all_literal : ∀ ts : List Ty, renderAll (literalAll ts) = renderAll ts
  | [] => rfl
  | t :: ts => by
    rw [literalAll, renderAll, renderAll, render_literal t, render_all_literal ts]
end

mutual
/-- A type without parameters reads like itself. -/
theorem literal_concrete : ∀ {t : Ty}, t.hasParam = false → t.literal = t
  | .scalar _, _ => rfl
  | .adt name _, h => congrArg (adt name) (literal_all_concrete h)
  | .ref _ mutable, h => congrArg (fun t => ref t mutable) (literal_concrete h)
  | .tuple _, h => congrArg tuple (literal_all_concrete h)
  | .fnDef callee _, h => congrArg (fnDef callee) (literal_all_concrete h)
  | .fnPtr _ _, h => by
    simp only [hasParam, Bool.or_eq_false_iff] at h
    rw [literal, literal_all_concrete h.1, literal_concrete h.2]

theorem literal_all_concrete : ∀ {ts : List Ty}, anyHasParam ts = false →
    literalAll ts = ts
  | [], _ => rfl
  | _ :: _, h => by
    simp only [anyHasParam, Bool.or_eq_false_iff] at h
    rw [literalAll, literal_concrete h.1, literal_all_concrete h.2]
end

end Ty

namespace Source

/-- The definition that the texts of a path say, with its crate in front. -/
def DefId.ofTexts : List String → DefId
  | [] => ⟨"", ""⟩
  | crate :: texts => ⟨crate, String.intercalate "::" texts⟩

mutual
/-- The type that is said by a type as written. -/
def TypeTree.literal : TypeTree → Ty
  | .unit => .unit
  | .tuple elems => .tuple (literalAll elems)
  | .ref mutable pointee => .ref pointee.literal mutable
  | .fnPtr inputs output => .fnPtr (literalAll inputs) output.literal
  | .fnDef path args => .fnDef (DefId.ofTexts (pathTexts path)) (literalAll args)
  | .never => .scalar "!"
  | .named _ path args => .named (String.intercalate "::" (pathTexts path)) (literalAll args)

/-- The types that are said by types as written. -/
def literalAll : List TypeTree → List Ty
  | [] => []
  | tree :: trees => tree.literal :: literalAll trees

/-- A segment as it is printed. -/
def SegmentTree.text : SegmentTree → String
  | .name name => name
  | .qualified ty traitPath =>
    "<" ++ ty.literal.render ++ " as " ++ String.intercalate "::" (pathTexts traitPath) ++ ">"

/-- The segments of a path as they are printed. -/
def pathTexts : List SegmentTree → List String
  | [] => []
  | segment :: segments => segment.text :: pathTexts segments
end

theorem literal_all_eq_of_forall {tys : List Ty} {trees : List TypeTree}
    (h : List.Forall₂ (fun ty tree => tree.literal = ty.literal) tys trees) :
    literalAll trees = Ty.literalAll tys := by
  induction h with
  | nil => rfl
  | cons hhead _ ih => rw [literalAll, Ty.literalAll, hhead, ih]

theorem path_texts_eq_of_forall {texts : List String} {path : PathTree}
    (h : List.Forall₂ (fun text segment => segment.text = text) texts path) :
    pathTexts path = texts := by
  induction h with
  | nil => rfl
  | cons hhead _ ih => rw [pathTexts, hhead, ih]

/-! ## Legible types -/

/-- The text is a segment that is printed like this. -/
def LegibleSegment (text : String) : Prop :=
  Phrase Syntax.segment text fun segment => segment.text = text

/-- The text is a path whose segments are printed like this. -/
def LegiblePath (text : String) : Prop :=
  ∃ texts, texts ≠ [] ∧ (∀ segment ∈ texts, LegibleSegment segment) ∧
    String.intercalate "::" texts = text

/-- The names in the head of a type are spelled as such. -/
def LegibleHead : Ty.Head → Prop
  | .scalar name => name ∈ Ty.scalarNames
  | .adt name => LegiblePath name ∧ name ∉ Ty.scalarNames
  | .param name => IsName name.toList
  | .fnDef callee => IsName callee.crate.toList ∧ LegiblePath callee.path
  | .ref _ | .tuple | .fnPtr => True

end Source

open Source

/-- The names in the type are spelled as such. -/
def Ty.Legible (t : Ty) : Prop :=
  t.HeadsIn LegibleHead

namespace Source

/-- A name is a legible segment. -/
theorem LegibleSegment.name {name : String} (h : IsName name.toList) : LegibleSegment name :=
  (Phrase.name_segment h).imp fun segment hsegment => by rw [hsegment, SegmentTree.text]

/-- A legible segment is a legible path. -/
theorem LegiblePath.segment {text : String} (h : LegibleSegment text) : LegiblePath text :=
  ⟨[text], List.cons_ne_nil _ _, List.forall_mem_singleton.mpr h, String.intercalate_singleton⟩

/-- A legible path goes on with a legible segment. -/
theorem LegiblePath.append {owner text : String} (howner : LegiblePath owner)
    (h : LegibleSegment text) : LegiblePath (owner ++ "::" ++ text) := by
  obtain ⟨texts, hne, hall, rfl⟩ := howner
  refine ⟨texts ++ [text], List.append_ne_nil_of_left_ne_nil hne _, ?_, ?_⟩
  · exact List.forall_mem_append.mpr ⟨hall, List.forall_mem_singleton.mpr h⟩
  · rw [String.intercalate_append_of_ne_nil hne (List.cons_ne_nil _ _),
      String.intercalate_singleton]

/-- A legible path is read as such. -/
theorem LegiblePath.phrase {text : String} (h : LegiblePath text) :
    Phrase Syntax.path text fun path => String.intercalate "::" (pathTexts path) = text := by
  obtain ⟨texts, hne, hall, rfl⟩ := h
  refine (Phrase.segments hne hall).imp fun path hpath => ?_
  rw [path_texts_eq_of_forall hpath]

/-- The symbol of a definition in a crate is read as the definition. -/
theorem symbol_phrase_literal {d : DefId} (hcrate : IsName d.crate.toList)
    (hpath : LegiblePath d.path) :
    Phrase Syntax.path d.symbol fun path => DefId.ofTexts (pathTexts path) = d := by
  obtain ⟨texts, hne, hall, htext⟩ := hpath
  have hsegments := List.forall_mem_cons.mpr ⟨LegibleSegment.name hcrate, hall⟩
  refine ((Phrase.segments (List.cons_ne_nil _ _) hsegments).imp fun path hpath => ?_).of_eq ?_
  · rw [path_texts_eq_of_forall hpath, DefId.ofTexts, htext]
  · rw [String.intercalate_cons_of_ne_nil hne, htext, DefId.symbol]

end Source

namespace Ty

theorem name_or_never : ∀ name ∈ scalarNames, name = "!" ∨ IsName name.toList := by
  decide

/-- The scalar types are legible. -/
theorem legible_scalar {name : String} (h : name ∈ scalarNames) : (scalar name).Legible :=
  .node h nofun

/-- A legible type is read as what it says. -/
theorem Legible.phrase {t : Ty} (h : t.Legible) :
    Phrase Syntax.ty t.render fun tree => tree.literal = t.literal := by
  induction h with
  | node hhead _ ih =>
      rename_i t _
      have hname {name : String} (h : IsName name.toList) :
          Phrase Syntax.ty name fun tree => tree.literal = named name [] := by
        have hpath := LegiblePath.phrase (.segment (.name h))
        have hnone : ∀ ty ∈ ([] : List Ty), Phrase Syntax.ty ty.render fun _ => True :=
          fun _ hty => absurd hty List.not_mem_nil
        have hargs := Phrase.named_ty (R := fun _ _ => True) hpath hnone
        refine (hargs.imp ?_).of_eq (String.append_empty)
        rintro _ ⟨_, _, _, rfl, hpath, ⟨⟩⟩
        rw [TypeTree.literal, hpath, Source.literalAll]
      cases t with
      | scalar name =>
          rcases name_or_never name hhead with rfl | hword
          · exact Phrase.never_ty.imp fun tree htree => by rw [htree, TypeTree.literal, literal]
          · refine (hname hword).imp fun tree htree => ?_
            rw [htree, literal]
            exact if_pos hhead
      | param name => exact hname hhead
      | adt name args =>
          refine ((Phrase.named_ty hhead.1.phrase ih).imp ?_).of_eq ?_
          · rintro _ ⟨_, _, _, rfl, hpath, hargs⟩
            rw [TypeTree.literal, hpath, literal_all_eq_of_forall hargs, literal]
            exact if_neg hhead.2
          · rw [render, renderAll_eq_map, parts]
      | ref pointee mutable =>
          refine (Phrase.ref_ty (ih pointee (List.mem_singleton.mpr rfl))).imp ?_
          rintro _ ⟨_, rfl, hpointee⟩
          rw [TypeTree.literal, hpointee, literal]
      | tuple elems =>
          cases elems with
          | nil => exact Phrase.unit_ty.imp fun tree htree => by rw [htree]; rfl
          | cons first rest =>
              obtain ⟨hfirst, hrest⟩ := List.forall_mem_cons.mp ih
              refine (Phrase.tuple_ty (R := fun ty tree => tree.literal = ty.literal)
                hfirst hrest).imp ?_
              rintro _ ⟨_, _, rfl, helem, helems⟩
              rw [TypeTree.literal, Source.literalAll, helem, literal_all_eq_of_forall helems,
                literal, literalAll]
      | fnDef callee args =>
          refine (Phrase.fn_def_ty (symbol_phrase_literal hhead.1 hhead.2) ih).imp ?_
          rintro _ ⟨_, _, rfl, hpath, hargs⟩
          rw [TypeTree.literal, hpath, literal_all_eq_of_forall hargs, literal, parts]
      | fnPtr inputs output =>
          obtain ⟨houtput, hinputs⟩ := List.forall_mem_cons.mp ih
          refine (Phrase.fn_ptr_ty hinputs houtput).imp ?_
          rintro _ ⟨_, _, rfl, hfound, hout⟩
          rw [TypeTree.literal, hout, literal_all_eq_of_forall hfound, literal]

/-- Legible types without parameters differ in their printed forms. -/
theorem Legible.eq_of_render {t u : Ty} (ht : t.Legible) (hu : u.Legible)
    (htc : t.hasParam = false) (huc : u.hasParam = false) (h : t.render = u.render) : t = u := by
  obtain ⟨tree, hreads, hsame⟩ := Phrase.unique (by decide) ht.phrase (hu.phrase.of_eq h.symm)
  rw [← literal_concrete htc, ← literal_concrete huc, ← hreads, hsame]

end Ty

namespace Source

/-! ## What is written is legible -/

/-- The names that the scope gives a meaning are spelled as such, in their types as well. -/
structure Scope.Legible (s : Scope) : Prop where
  localCrate : IsName s.localCrate.toList
  crates : ∀ crate ∈ s.crates, IsName crate.toList
  bound : ∀ name ty, s.types.lookup name = some ty → ty.Legible

/-- What the type as written denotes is legible, in whatever legible scope. -/
def TypeTree.Legible (tree : TypeTree) : Prop :=
  ∀ s : Scope, s.Legible → ∀ ty, tree.lower s = .ok ty → ty.Legible

/-- The text of the segment is legible, in whatever legible scope. -/
def SegmentTree.Legible (segment : SegmentTree) : Prop :=
  ∀ s : Scope, s.Legible → ∀ text, segment.lower s = .ok text → LegibleSegment text

section Lowering

variable {s : Scope} {path : PathTree} {texts : List String} {trees : List TypeTree}
  {tys : List Ty}

/-- Legible trees denote legible types. -/
theorem types_legible (hs : s.Legible) (htrees : ∀ tree ∈ trees, tree.Legible)
    (h : lowerTypes s trees = .ok tys) : ∀ ty ∈ tys, ty.Legible := by
  rw [lower_types_eq_map_m] at h
  intro ty hty
  obtain ⟨tree, htree, hlower⟩ := Outcome.of_mem_map_m h hty
  exact htrees tree htree s hs ty hlower

/-- Legible paths have legible segments. -/
theorem segments_legible (hs : s.Legible) (hne : path ≠ [])
    (hpath : ∀ segment ∈ path, segment.Legible) (h : lowerSegments s path = .ok texts) :
    texts ≠ [] ∧ ∀ text ∈ texts, LegibleSegment text := by
  rw [lower_segments_eq_map_m] at h
  constructor
  · rintro rfl
    rw [Outcome.map_m_eq_ok] at h
    exact hne (List.forall₂_nil_right_iff.mp h)
  · intro text htext
    obtain ⟨segment, hsegment, hlower⟩ := Outcome.of_mem_map_m h htext
    exact hpath segment hsegment s hs text hlower

/-- The definition that a path names has a legible symbol. -/
theorem def_of_legible (hs : s.Legible) (hne : texts ≠ [])
    (htexts : ∀ text ∈ texts, LegibleSegment text) :
    IsName (s.defOf texts).crate.toList ∧ LegiblePath (s.defOf texts).path := by
  rcases s.def_of_cases texts with ⟨crate, next, rest, rfl, hcrate⟩ | hlocal
  · rw [Scope.def_of_in_crate hcrate]
    exact ⟨hs.crates crate hcrate, _, List.cons_ne_nil _ _, (List.forall_mem_cons.mp htexts).2, rfl⟩
  · rw [hlocal]
    exact ⟨hs.localCrate, texts, hne, htexts, rfl⟩

/-- No scalar has a name with a separator. -/
theorem intercalate_not_scalar (first next : String) (rest : List String) :
    String.intercalate "::" (first :: next :: rest) ∉ Ty.scalarNames := by
  have hnone : ∀ name ∈ Ty.scalarNames, ':' ∉ name.toList := by decide
  intro hscalar
  refine hnone _ hscalar ?_
  simp [String.intercalate_cons_cons]

/-- The segment of an impl is legible, if its type and its trait are. -/
theorem impl_segment_legible {ty : Ty} {d : DefId} (hty : ty.Legible) (hpath : LegiblePath d.path) :
    LegibleSegment (implSegment ty d) := by
  refine (Phrase.qualified_segment hty.phrase hpath.phrase).imp ?_
  rintro _ ⟨_, _, rfl, hsame, htext⟩
  rw [SegmentTree.text, hsame, htext, Ty.render_literal, implSegment]

/-- A type is legible if its parts are. -/
theorem inherited_legible : Inherited TypeTree.Legible SegmentTree.Legible where
  unit s hs ty h := by
    obtain rfl := Outcome.pure_eq_ok.mp h
    exact .node trivial nofun
  tuple {elem elems} helem helems s hs ty h := by
    obtain ⟨tys, htys, hty⟩ := Outcome.bind_eq_ok.mp h
    obtain rfl := Outcome.pure_eq_ok.mp hty
    exact .node trivial (types_legible hs (List.forall_mem_cons.mpr ⟨helem, helems⟩) htys)
  ref {mutable pointee} hpointee s hs ty h := by
    obtain ⟨inner, hinner, hty⟩ := Outcome.bind_eq_ok.mp h
    obtain rfl := Outcome.pure_eq_ok.mp hty
    exact .node trivial (List.forall_mem_singleton.mpr (hpointee s hs inner hinner))
  fnPtr {inputs output} hinputs houtput s hs ty h := by
    simp only [TypeTree.lower, Outcome.bind_eq_ok, Outcome.pure_eq_ok] at h
    obtain ⟨tys, htys, out, hout, rfl⟩ := h
    have hparts := types_legible hs hinputs htys
    exact .node trivial (List.forall_mem_cons.mpr ⟨houtput s hs out hout, hparts⟩)
  fnDef {path args} hne hpath hargs s hs ty h := by
    simp only [TypeTree.lower, Outcome.bind_eq_ok, Outcome.pure_eq_ok] at h
    obtain ⟨texts, htexts, tys, htys, rfl⟩ := h
    obtain ⟨hsome, hsegments⟩ := segments_legible hs hne hpath htexts
    exact .node (def_of_legible hs hsome hsegments) (types_legible hs hargs htys)
  never s hs ty h := by
    obtain rfl := Outcome.pure_eq_ok.mp h
    exact Ty.legible_scalar (by decide)
  named {region path args} hne hpath hargs s hs ty h := by
    obtain ⟨tys, texts, htys, htexts, hmeant⟩ := named_lower_eq_ok.mp h
    obtain ⟨hsome, hsegments⟩ := segments_legible hs hne hpath htexts
    obtain ⟨name, rfl, hsingle, -⟩ | ⟨hfree, rfl⟩ := hmeant
    · rcases Scope.single_eq_some hsingle with hbound | ⟨hscalar, rfl⟩
      · exact hs.bound name ty hbound
      · exact Ty.legible_scalar hscalar
    · refine .node ⟨⟨texts, hsome, hsegments, rfl⟩, ?_⟩ (types_legible hs hargs htys)
      rcases texts with _ | ⟨name, _ | ⟨next, rest⟩⟩
      · exact absurd rfl hsome
      · intro hscalar
        rw [String.intercalate_singleton] at hscalar
        have hunbound := hfree name rfl
        unfold Scope.single? at hunbound
        split at hunbound
        · cases hunbound
        · rw [if_pos hscalar] at hunbound
          cases hunbound
      · exact intercalate_not_scalar name next rest
  name {tok} h s hs text htext := by
    obtain rfl := Outcome.pure_eq_ok.mp htext
    refine .name ?_
    rwa [Token.string, String.toList_ofList]
  qualified {ty traitPath} hty hne hpath s hs text htext := by
    simp only [SegmentTree.lower, Outcome.bind_eq_ok, Outcome.pure_eq_ok] at htext
    obtain ⟨self, hself, texts, htexts, rfl⟩ := htext
    obtain ⟨hsome, hsegments⟩ := segments_legible hs hne hpath htexts
    exact impl_segment_legible (hty s hs self hself) (def_of_legible hs hsome hsegments).2

end Lowering

/-- What is read as a type is legible. -/
theorem TypeTree.legible_of_derives {ts : List Token} {tree : TypeTree}
    (hts : ∀ tok ∈ ts, tok.Spelled) (h : Gram.Derives Syntax.definition Syntax.ty ts tree) :
    tree.Legible :=
  Ensures.ty.derives (Ensures.definition inherited_legible) hts h

end Source

end MirAudit
