import MirAudit.Proofs.Source.Ensures
import MirAudit.Proofs.Source.Names
import MirAudit.Proofs.Source.TypePhrases

/-!
# Printed types are read back

What a type that was read denotes is printed as a text that is read as a type that denotes the same:
`types_reread`. The printed text differs from the one that was read: a function item is printed with
its crate in front, and the trait of a segment `<Type as Trait>` without. So the trait must be named
by one name, behind the name of a crate or not: `OneName`.
-/

namespace MirAudit.Source

/-! ## Traits in segments -/

mutual
/-- The paths of the traits in the `<Type as Trait>` segments of a type. -/
def TypeTree.traitPaths : TypeTree → List PathTree
  | .unit => []
  | .tuple elems => traitPathsAll elems
  | .ref _ pointee => pointee.traitPaths
  | .fnPtr inputs output => traitPathsAll inputs ++ output.traitPaths
  | .fnDef path args => pathTraitPaths path ++ traitPathsAll args
  | .never => []
  | .named _ path args => pathTraitPaths path ++ traitPathsAll args

/-- The paths of the traits in the segments of some types. -/
def traitPathsAll : List TypeTree → List PathTree
  | [] => []
  | tree :: trees => tree.traitPaths ++ traitPathsAll trees

/-- The path of the trait of a segment, and those inside the segment. -/
def SegmentTree.traitPaths : SegmentTree → List PathTree
  | .name _ => []
  | .qualified ty traitPath => traitPath :: (ty.traitPaths ++ pathTraitPaths traitPath)

/-- The paths of the traits in the segments of a path. -/
def pathTraitPaths : List SegmentTree → List PathTree
  | [] => []
  | segment :: segments => segment.traitPaths ++ pathTraitPaths segments
end

theorem mem_trait_paths_all {trees : List TypeTree} {path : PathTree} :
    path ∈ traitPathsAll trees ↔ ∃ tree ∈ trees, path ∈ tree.traitPaths := by
  induction trees with
  | nil => simp [traitPathsAll]
  | cons tree trees ih => simp [traitPathsAll, ih]

theorem mem_path_trait_paths {segments : PathTree} {path : PathTree} :
    path ∈ pathTraitPaths segments ↔ ∃ segment ∈ segments, path ∈ segment.traitPaths := by
  induction segments with
  | nil => simp [pathTraitPaths]
  | cons segment segments ih => simp [pathTraitPaths, ih]

/-- The path is one name, behind the name of a crate or not. -/
inductive OneName (crates : List String) : PathTree → Prop where
  | plain (name : String) : OneName crates [.name name]
  | inCrate (crate name : String) : crate ∈ crates → OneName crates [.name crate, .name name]

/-! ## Reading again -/

/-- The scope of a body whose printed names mean what they did: the local crate can be written down,
and every type that is bound is the parameter of that name. -/
structure Scope.Printable (s : Scope) : Prop where
  crate_mem : s.localCrate ∈ s.crates
  crate_name : IsName s.localCrate.toList
  bound : ∀ name ty, s.types.lookup name = some ty → ty = .param name

/-- What a tree denotes is printed as a text that is read as a tree that denotes the same, if the
traits in its segments are named by one name. -/
def Rereads {τ α : Type} (crates : List String) (part : Syntax.Part τ)
    (traitPaths : τ → List PathTree) (lower : τ → Load α) (render : α → String) (tree : τ) : Prop :=
  (∀ path ∈ traitPaths tree, OneName crates path) → ∀ a, lower tree = .ok a →
    Phrase part (render a) fun again => lower again = .ok a

/-- What several trees denote is printed as texts that are read so. -/
theorem Rereads.all {τ α : Type} {crates : List String} {part : Syntax.Part τ}
    {traitPaths : τ → List PathTree} {lower : τ → Load α} {render : α → String} {trees : List τ}
    {as : List α} (htrees : ∀ tree ∈ trees, Rereads crates part traitPaths lower render tree)
    (hone : ∀ tree ∈ trees, ∀ path ∈ traitPaths tree, OneName crates path)
    (h : trees.mapM lower = .ok as) :
    ∀ a ∈ as, Phrase part (render a) fun again => lower again = .ok a := by
  intro a ha
  obtain ⟨tree, htree, hlower⟩ := Outcome.of_mem_map_m h ha
  exact htrees tree htree (hone tree htree) a hlower

/-- The type can be read again. -/
def TypeTree.Rereads (s : Scope) : TypeTree → Prop :=
  Source.Rereads s.crates Syntax.ty traitPaths (lower s) Ty.render

/-- The text of the segment can be read again. -/
def SegmentTree.Rereads (s : Scope) : SegmentTree → Prop :=
  Source.Rereads s.crates Syntax.segment traitPaths (lower s) id

/-- What is to hold of the types and paths that were read. -/
abbrev rereads (s : Scope) : (n : Syntax.Rule) → n.Tree → Prop :=
  readAs (TypeTree.Rereads s) (SegmentTree.Rereads s)

variable {s : Scope}

/-! ## Paths -/

/-- Texts that are segments are a path, with separators between them. -/
theorem path_phrase {texts : List String} (hne : texts ≠ [])
    (h : ∀ text ∈ texts, Phrase Syntax.segment text fun segment => segment.lower s = .ok text) :
    Phrase Syntax.path (String.intercalate "::" texts) fun path =>
      lowerSegments s path = .ok texts := by
  refine (Phrase.segments hne h).imp fun path hall => ?_
  rw [lower_segments_eq_map_m, Outcome.map_m_eq_ok]
  exact hall.flip

/-- The texts of segments that were read are segments. -/
theorem segments_phrase {path : PathTree} {texts : List String} (hne : path ≠ [])
    (hpath : ∀ segment ∈ path, segment.Rereads s)
    (hone : ∀ inner ∈ pathTraitPaths path, OneName s.crates inner)
    (h : lowerSegments s path = .ok texts) : texts ≠ [] ∧
      ∀ text ∈ texts, Phrase Syntax.segment text fun segment => segment.lower s = .ok text := by
  rw [lower_segments_eq_map_m] at h
  constructor
  · rintro rfl
    rw [Outcome.map_m_eq_ok] at h
    exact hne (List.forall₂_nil_right_iff.mp h)
  · exact Rereads.all hpath (fun segment hsegment inner hinner =>
      hone inner (mem_path_trait_paths.mpr ⟨segment, hsegment, hinner⟩)) h

/-- A definition is printed with its crate in front, which the path that was read may lack. -/
theorem symbol_phrase (hs : s.Printable) {texts : List String} (hne : texts ≠ [])
    (h : ∀ text ∈ texts, Phrase Syntax.segment text fun segment => segment.lower s = .ok text) :
    Phrase Syntax.path (s.defOf texts).symbol fun path =>
      lowerDef s path = .ok (s.defOf texts) := by
  have hlower {written : List String} (hdef : s.defOf written = s.defOf texts) (path : PathTree)
      (hpath : lowerSegments s path = .ok written) : lowerDef s path = .ok (s.defOf texts) := by
    rw [lowerDef, hpath, ← hdef]
    rfl
  rcases s.def_of_cases texts with ⟨crate, next, rest, rfl, hcrate⟩ | hlocal
  · refine ((path_phrase hne h).imp (hlower rfl)).of_eq ?_
    rw [Scope.def_of_in_crate hcrate, DefId.symbol, String.intercalate_cons_cons]
  · obtain ⟨first, rest, rfl⟩ := List.exists_cons_of_ne_nil hne
    have hcrate : Phrase Syntax.segment s.localCrate fun segment =>
        segment.lower s = .ok s.localCrate :=
      (Phrase.name_segment hs.crate_name).imp fun segment hsegment => by
        rw [hsegment]
        rfl
    have hwritten := path_phrase (List.cons_ne_nil _ _) (List.forall_mem_cons.mpr ⟨hcrate, h⟩)
    have hdef : s.defOf (s.localCrate :: first :: rest) = s.defOf (first :: rest) :=
      (Scope.def_of_in_crate hs.crate_mem).trans hlocal.symm
    refine (hwritten.imp (hlower hdef)).of_eq ?_
    rw [hlocal, DefId.symbol, String.intercalate_cons_cons]
    rfl

/-! ## Types -/

section Types

variable {trees : List TypeTree} {tys : List Ty}

/-- What several types denote is printed as types that denote the same. -/
theorem types_phrase (htrees : ∀ tree ∈ trees, tree.Rereads s)
    (hone : ∀ path ∈ traitPathsAll trees, OneName s.crates path)
    (h : lowerTypes s trees = .ok tys) :
    ∀ ty ∈ tys, Phrase Syntax.ty ty.render fun tree => tree.lower s = .ok ty := by
  rw [lower_types_eq_map_m] at h
  exact Rereads.all htrees (fun tree htree path hpath =>
    hone path (mem_trait_paths_all.mpr ⟨tree, htree, hpath⟩)) h

theorem lower_types_of_forall (h : List.Forall₂ (fun ty tree => tree.lower s = .ok ty) tys trees) :
    lowerTypes s trees = .ok tys := by
  rw [lower_types_eq_map_m, Outcome.map_m_eq_ok]
  exact h.flip

end Types

/-! ## Each form of types -/

namespace TypeTree

theorem rereads_unit : TypeTree.unit.Rereads s := by
  intro _ ty h
  obtain rfl := Outcome.pure_eq_ok.mp h
  refine Phrase.unit_ty.imp fun tree htree => ?_
  rw [htree]
  rfl

/-- A tuple is read back, if its elements are. -/
theorem rereads_tuple {elem : TypeTree} {elems : List TypeTree} (helem : elem.Rereads s)
    (helems : ∀ elem ∈ elems, elem.Rereads s) : (TypeTree.tuple (elem :: elems)).Rereads s := by
  intro hone ty h
  simp only [TypeTree.lower, lowerTypes, Outcome.bind_eq_ok, Outcome.pure_eq_ok] at h
  obtain ⟨_, ⟨first, hfirst, tys, htys, rfl⟩, rfl⟩ := h
  simp only [traitPaths, traitPathsAll, List.mem_append] at hone
  have hhead := helem (fun path hpath => hone path (Or.inl hpath)) first hfirst
  have hrest := types_phrase helems (fun path hpath => hone path (Or.inr hpath)) htys
  refine (Phrase.tuple_ty (R := fun ty tree => tree.lower s = .ok ty) hhead hrest).imp ?_
  rintro _ ⟨again, more, rfl, hagain, hmore⟩
  simp only [TypeTree.lower, lowerTypes, hagain, lower_types_of_forall hmore]
  rfl

/-- A reference is read back, if what it points to is. -/
theorem rereads_ref {mutable : Bool} {pointee : TypeTree} (h : pointee.Rereads s) :
    (TypeTree.ref mutable pointee).Rereads s := by
  intro hone ty hlower
  simp only [TypeTree.lower, Outcome.bind_eq_ok, Outcome.pure_eq_ok] at hlower
  obtain ⟨inner, hinner, rfl⟩ := hlower
  refine (Phrase.ref_ty (h hone inner hinner)).imp ?_
  rintro _ ⟨again, rfl, hagain⟩
  rw [TypeTree.lower, hagain]
  rfl

/-- A function pointer is read back, if its inputs and its output are. -/
theorem rereads_fn_ptr {inputs : List TypeTree} {output : TypeTree}
    (hinputs : ∀ input ∈ inputs, input.Rereads s) (houtput : output.Rereads s) :
    (TypeTree.fnPtr inputs output).Rereads s := by
  intro hone ty hlower
  simp only [TypeTree.lower, Outcome.bind_eq_ok, Outcome.pure_eq_ok] at hlower
  obtain ⟨tys, htys, out, hout, rfl⟩ := hlower
  simp only [traitPaths, List.mem_append] at hone
  have hargs := types_phrase hinputs (fun path hpath => hone path (Or.inl hpath)) htys
  have hresult := houtput (fun path hpath => hone path (Or.inr hpath)) out hout
  refine (Phrase.fn_ptr_ty hargs hresult).imp ?_
  rintro _ ⟨found, again, rfl, hfound, hagain⟩
  rw [TypeTree.lower, lower_types_of_forall hfound, hagain]
  rfl

/-- A function item is read back, if its path and its arguments are. -/
theorem rereads_fn_def (hs : s.Printable) {path : PathTree} {args : List TypeTree}
    (hne : path ≠ []) (hpath : ∀ segment ∈ path, segment.Rereads s)
    (hargs : ∀ arg ∈ args, arg.Rereads s) : (TypeTree.fnDef path args).Rereads s := by
  intro hone ty hlower
  simp only [TypeTree.lower, Outcome.bind_eq_ok, Outcome.pure_eq_ok] at hlower
  obtain ⟨texts, htexts, tys, htys, rfl⟩ := hlower
  simp only [traitPaths, List.mem_append] at hone
  obtain ⟨hsome, hsegments⟩ := segments_phrase hne hpath
    (fun path hpath => hone path (Or.inl hpath)) htexts
  have htypes := types_phrase hargs (fun path hpath => hone path (Or.inr hpath)) htys
  refine (Phrase.fn_def_ty (symbol_phrase hs hsome hsegments) htypes).imp ?_
  rintro _ ⟨again, more, rfl, hagain, hmore⟩
  obtain ⟨found, hfound, hdef⟩ := Outcome.bind_eq_ok.mp hagain
  rw [TypeTree.lower, hfound, lower_types_of_forall hmore, ← Except.ok.inj hdef]
  rfl

theorem rereads_never : TypeTree.never.Rereads s := by
  intro _ ty h
  obtain rfl := Outcome.pure_eq_ok.mp h
  refine Phrase.never_ty.imp fun tree htree => ?_
  rw [htree]
  rfl

/-- A named type is read back, if its path and its arguments are. -/
theorem rereads_named (hs : s.Printable) {region : Region} {path : PathTree} {args : List TypeTree}
    (hne : path ≠ []) (hpath : ∀ segment ∈ path, segment.Rereads s)
    (hargs : ∀ arg ∈ args, arg.Rereads s) : (TypeTree.named region path args).Rereads s := by
  intro hone ty hlower
  obtain ⟨tys, texts, htys, htexts, hmeant⟩ := named_lower_eq_ok.mp hlower
  simp only [traitPaths, List.mem_append] at hone
  obtain ⟨hsome, hsegments⟩ := segments_phrase hne hpath
    (fun path hpath => hone path (Or.inl hpath)) htexts
  have htypes := types_phrase hargs (fun path hpath => hone path (Or.inr hpath)) htys
  refine ((Phrase.named_ty (path_phrase hsome hsegments) htypes).imp ?_).of_eq ?_
  · rintro _ ⟨_, _, more, rfl, hfound, hmore⟩
    exact named_lower_eq_ok.mpr ⟨tys, texts, lower_types_of_forall hmore, hfound, hmeant⟩
  obtain ⟨name, rfl, hsingle, rfl⟩ | ⟨-, rfl⟩ := hmeant
  · have hname : ty.render = name := by
      rcases Scope.single_eq_some hsingle with hbound | ⟨-, rfl⟩
      · rw [hs.bound name ty hbound, Ty.render]
      · rw [Ty.render]
    rw [String.intercalate_singleton, hname, List.map_nil, Ty.renderArgs, String.append_empty]
  · rw [Ty.render, Ty.renderAll_eq_map]

end TypeTree

namespace SegmentTree

theorem rereads_name {tok : Token} (h : IsName tok.text) :
    (SegmentTree.name tok.string).Rereads s := by
  intro _ text htext
  obtain rfl := Outcome.pure_eq_ok.mp htext
  have hname : IsName tok.string.toList := by rwa [Token.string, String.toList_ofList]
  refine (Phrase.name_segment hname).imp fun segment hsegment => ?_
  rw [hsegment]
  rfl

/-- A qualified segment is read back, if its type and its trait are. -/
theorem rereads_qualified {ty : TypeTree} {traitPath : PathTree} (hty : ty.Rereads s)
    (hpath : ∀ segment ∈ traitPath, segment.Rereads s) :
    (SegmentTree.qualified ty traitPath).Rereads s := by
  intro hone text htext
  simp only [SegmentTree.lower, Outcome.bind_eq_ok, Outcome.pure_eq_ok] at htext
  obtain ⟨self, hself, texts, htexts, rfl⟩ := htext
  simp only [traitPaths, List.mem_cons, List.mem_append, forall_eq_or_imp] at hone
  obtain ⟨hname, hone⟩ := hone
  have hlower := hty (fun path hpath => hone path (Or.inl hpath)) self hself
  have hnone {name : String} : ∀ path ∈ (SegmentTree.name name).traitPaths, OneName s.crates path :=
    fun _ hpath => absurd hpath List.not_mem_nil
  obtain ⟨name, hsegment, hdef⟩ : ∃ name, (Phrase Syntax.segment name fun segment =>
      segment.lower s = .ok name) ∧ (s.defOf texts).path = name := by
    cases hname with
    | plain name =>
        obtain rfl : [name] = texts := Except.ok.inj htexts
        exact ⟨name, hpath (.name name) List.mem_cons_self hnone name rfl,
          congrArg DefId.path (s.def_of_single name)⟩
    | inCrate crate name hcrate =>
        obtain rfl : [crate, name] = texts := Except.ok.inj htexts
        refine ⟨name, hpath (.name name) (List.mem_cons_of_mem _ List.mem_cons_self) hnone name rfl,
          ?_⟩
        rw [Scope.def_of_in_crate hcrate, String.intercalate_singleton]
  have htrait := path_phrase (List.cons_ne_nil _ _) (List.forall_mem_singleton.mpr hsegment)
  refine ((Phrase.qualified_segment hlower htrait).imp ?_).of_eq ?_
  · rintro _ ⟨again, found, rfl, hagain, hfound⟩
    rw [SegmentTree.lower, hagain, hfound]
    show Except.ok (implSegment self (s.defOf [name])) = _
    rw [implSegment, implSegment, hdef, Scope.def_of_single]
    rfl
  · rw [implSegment, hdef, String.intercalate_singleton]
    rfl

end SegmentTree

/-! ## All that is read -/

/-- A type can be read again if its parts can. -/
theorem inherited_rereads (hs : s.Printable) :
    Inherited (TypeTree.Rereads s) (SegmentTree.Rereads s) where
  unit := TypeTree.rereads_unit
  tuple := TypeTree.rereads_tuple
  ref := TypeTree.rereads_ref
  fnPtr := TypeTree.rereads_fn_ptr
  fnDef := TypeTree.rereads_fn_def hs
  never := TypeTree.rereads_never
  named := TypeTree.rereads_named hs
  name := SegmentTree.rereads_name
  qualified hty _ := SegmentTree.rereads_qualified hty

/-- What a type that was read denotes is printed as a type that denotes the same. -/
theorem types_reread (hs : s.Printable) {ts : List Token} {tree : TypeTree}
    (hts : ∀ tok ∈ ts, tok.Spelled) (h : Gram.Derives Syntax.definition Syntax.ty ts tree) :
    tree.Rereads s :=
  Ensures.ty.derives (Ensures.definition (inherited_rereads hs)) hts h

end MirAudit.Source
