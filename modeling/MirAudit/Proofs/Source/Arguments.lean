import MirAudit.Proofs.Source.Names
import MirAudit.Proofs.Ty.Parts
import MirAudit.Ty.Printer

/-!
# Parameters bound to their arguments

`Scope.Fills` relates the scope in which a body is built, where each parameter denotes itself, to
one in which it denotes its argument. Read `TypeTree.lower_subst` first: a tree that has no
parameter inside a segment denotes in the second scope what substitution makes of it.
-/

namespace MirAudit.Source

variable {s s' : Scope}

/-- Where `generic` binds each parameter to itself, `direct` binds it to its argument. -/
structure Scope.Fills (generic direct : Scope) (params : List String) (arg : String → Ty) :
    Prop where
  crates : generic.SameCrates direct
  param : ∀ name ∈ params, generic.types.lookup name = some (.param name)
  argument : ∀ name ∈ params, direct.types.lookup name = some (arg name)
  other : ∀ name ∉ params, direct.types.lookup name = generic.types.lookup name
  concrete : ∀ name ∉ params, ∀ ty, generic.types.lookup name = some ty → ty.hasParam = false

namespace Scope.Fills

variable {params : List String} {arg : String → Ty} {name : String}

/-- In the scope of the parameters, a parameter denotes itself. -/
theorem single_param (h : s.Fills s' params arg) (hname : name ∈ params) :
    s.single? name = some (.param name) := by
  rw [single?, h.param name hname]

/-- In the scope of the arguments, a parameter denotes its argument. -/
theorem single_argument (h : s.Fills s' params arg) (hname : name ∈ params) :
    s'.single? name = some (arg name) := by
  rw [single?, h.argument name hname]

/-- What is no parameter denotes the same in both scopes. -/
theorem single_other (h : s.Fills s' params arg) (hname : name ∉ params) :
    s'.single? name = s.single? name :=
  single_congr (h.other name hname)

/-- What is looked up apart from the parameters is concrete. -/
theorem single_concrete (h : s.Fills s' params arg) (hname : name ∉ params) {ty : Ty}
    (hty : s.single? name = some ty) : ty.hasParam = false := by
  rcases single_eq_some hty with hbound | ⟨-, rfl⟩
  · exact h.concrete name hname ty hbound
  · rfl

/-- A name is bound in both scopes or in none. -/
theorem single_eq_none_iff (h : s.Fills s' params arg) :
    s'.single? name = none ↔ s.single? name = none := by
  by_cases hname : name ∈ params
  · simp [h.single_param hname, h.single_argument hname]
  · rw [h.single_other hname]

/-- A path without parameters inside its segments has the same segments in both scopes. -/
theorem lower_segments (h : s.Fills s' params arg) {path : PathTree}
    (hpath : ∀ name ∈ pathLookups s path, name ∉ params) :
    lowerSegments s' path = lowerSegments s path := by
  refine lower_segments_congr fun segment hsegment => ?_
  refine (lower_congr h.crates).2 segment fun name hname => h.other name ?_
  exact hpath name (mem_path_lookups.mpr ⟨segment, hsegment, hname⟩)

end Scope.Fills

/-! ## Substitution -/

/-- What a tree denotes in `direct` is what it denotes in `generic` with the parameters replaced. -/
def TypeTree.Agrees (generic direct : Scope) (σ : Subst) (tree : TypeTree) : Prop :=
  ∀ ty, tree.lower generic = .ok ty → tree.lower direct = .ok (ty.subst σ)

variable {σ : Subst}

/-- A tree agrees if it denotes with the arguments what substitution makes of it. -/
theorem TypeTree.agrees_iff {tree : TypeTree} {ty : Ty} (h : tree.lower s = .ok ty) :
    tree.Agrees s s' σ ↔ tree.lower s' = .ok (ty.subst σ) := by
  constructor
  · exact fun hagrees => hagrees ty h
  · intro hdirect other hother
    rw [h] at hother
    cases hother
    exact hdirect

/-- Trees agree as a list exactly if each of them does. -/
theorem lower_types_subst_iff {trees : List TypeTree} {tys : List Ty}
    (h : lowerTypes s trees = .ok tys) :
    lowerTypes s' trees = .ok (tys.map (Ty.subst σ)) ↔ ∀ tree ∈ trees, tree.Agrees s s' σ := by
  rw [lower_types_eq_map_m] at h ⊢
  refine Outcome.map_m_map_iff h fun tree ty hty => ?_
  exact (TypeTree.agrees_iff hty).symm

/-- No parameter stands inside a segment of the tree, and the substitution binds each one that the
tree looks up to its argument. -/
def TypeTree.Plain (generic : Scope) (params : List String) (arg : String → Ty) (σ : Subst)
    (tree : TypeTree) : Prop :=
  (∀ name ∈ tree.flattened generic, name ∉ params) ∧
    ∀ name ∈ tree.lookups generic, name ∈ params → σ.lookup name = some (arg name)

section Plain

variable {params : List String} {arg : String → Ty}

theorem plain_tuple {elems : List TypeTree} :
    (TypeTree.tuple elems).Plain s params arg σ ↔
      ∀ elem ∈ elems, elem.Plain s params arg σ := by
  simp only [TypeTree.Plain, TypeTree.flattened, TypeTree.lookups, mem_flattened_all,
    mem_lookups_all]
  grind

theorem plain_fn_ptr {inputs : List TypeTree} {output : TypeTree} :
    (TypeTree.fnPtr inputs output).Plain s params arg σ ↔
      (∀ input ∈ inputs, input.Plain s params arg σ) ∧ output.Plain s params arg σ := by
  simp only [TypeTree.Plain, TypeTree.flattened, TypeTree.lookups, List.mem_append,
    mem_flattened_all, mem_lookups_all]
  grind

theorem plain_fn_def {path : PathTree} {args : List TypeTree} :
    (TypeTree.fnDef path args).Plain s params arg σ ↔
      (∀ name ∈ pathLookups s path, name ∉ params) ∧
        ∀ tree ∈ args, tree.Plain s params arg σ := by
  simp only [TypeTree.Plain, TypeTree.flattened, TypeTree.lookups, List.mem_append,
    mem_flattened_all, mem_lookups_all]
  grind

theorem plain_named {region : Region} {path : PathTree} {args : List TypeTree} :
    (TypeTree.named region path args).Plain s params arg σ ↔
      (∀ name ∈ pathLookups s path, name ∉ params) ∧
        (∀ name, lowerSegments s path = .ok [name] → name ∈ params →
          σ.lookup name = some (arg name)) ∧
        ∀ tree ∈ args, tree.Plain s params arg σ := by
  simp only [TypeTree.Plain, TypeTree.flattened, TypeTree.lookups, List.mem_append,
    mem_flattened_all, mem_lookups_all, mem_head_lookup]
  grind

/-- A plain tree denotes with arguments what substitution makes of it. -/
theorem TypeTree.lower_subst (hfills : s.Fills s' params arg) {tree : TypeTree}
    (hplain : tree.Plain s params arg σ) : tree.Agrees s s' σ := by
  induction tree using TypeTree.args_induction with
  | unit | never =>
      intro ty hty
      cases hty
      rfl
  | tuple elems ih =>
      intro ty hty
      rw [plain_tuple] at hplain
      simp only [TypeTree.lower, Outcome.bind_eq_ok, Outcome.pure_eq_ok] at hty ⊢
      obtain ⟨tys, htys, rfl⟩ := hty
      have helems :=
        (lower_types_subst_iff htys).mpr fun elem helem => ih elem helem (hplain elem helem)
      exact ⟨_, helems, by rw [Ty.subst, Ty.substAll_eq_map]⟩
  | ref mutable pointee ih =>
      intro ty hty
      simp only [TypeTree.lower, Outcome.bind_eq_ok, Outcome.pure_eq_ok] at hty ⊢
      obtain ⟨inner, hinner, rfl⟩ := hty
      exact ⟨_, ih hplain inner hinner, rfl⟩
  | fnPtr inputs output hinputs houtput =>
      intro ty hty
      obtain ⟨hplainInputs, hplainOutput⟩ := plain_fn_ptr.mp hplain
      simp only [TypeTree.lower, Outcome.bind_eq_ok, Outcome.pure_eq_ok] at hty ⊢
      obtain ⟨tys, htys, result, hresult, rfl⟩ := hty
      have hlowered := (lower_types_subst_iff htys).mpr
        fun input hinput => hinputs input hinput (hplainInputs input hinput)
      refine ⟨_, hlowered, _, houtput hplainOutput result hresult, ?_⟩
      rw [Ty.subst, Ty.substAll_eq_map]
  | fnDef path args hargs =>
      intro ty hty
      obtain ⟨hplainPath, hplainArgs⟩ := plain_fn_def.mp hplain
      simp only [TypeTree.lower, Outcome.bind_eq_ok, Outcome.pure_eq_ok] at hty ⊢
      obtain ⟨segments, hsegments, tys, htys, rfl⟩ := hty
      have hpath := hfills.lower_segments hplainPath
      have hlowered := (lower_types_subst_iff htys).mpr
        fun tree htree => hargs tree htree (hplainArgs tree htree)
      refine ⟨segments, hpath.trans hsegments, _, hlowered, ?_⟩
      rw [Ty.subst, Ty.substAll_eq_map, hfills.crates.def_of]
  | named region path args hargs =>
      intro ty hty
      obtain ⟨hplainPath, hplainHead, hplainArgs⟩ := plain_named.mp hplain
      obtain ⟨tys, segments, htys, hsegments, hcases⟩ := named_lower_eq_ok.mp hty
      have hpath := hfills.lower_segments hplainPath
      have hlowered := (lower_types_subst_iff htys).mpr
        fun tree htree => hargs tree htree (hplainArgs tree htree)
      refine named_lower_eq_ok.mpr ⟨_, segments, hlowered, hpath.trans hsegments, ?_⟩
      -- the path is a parameter, another name in scope, or nominal, and the same in both scopes
      rcases hcases with ⟨name, rfl, hbound, rfl⟩ | ⟨hunbound, rfl⟩
      · refine Or.inl ⟨name, rfl, ?_, rfl⟩
        by_cases hname : name ∈ params
        · rw [hfills.single_param hname] at hbound
          cases hbound
          rw [hfills.single_argument hname, Ty.subst, hplainHead name hsegments hname]
          rfl
        · rw [hfills.single_other hname, hbound,
            Ty.subst_concrete σ (hfills.single_concrete hname hbound)]
      · refine Or.inr ⟨fun name hname => hfills.single_eq_none_iff.mpr (hunbound name hname), ?_⟩
        rw [Ty.subst, Ty.substAll_eq_map]

end Plain

end MirAudit.Source
