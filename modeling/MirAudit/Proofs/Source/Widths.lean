import MirAudit.Proofs.Source.Arguments
import MirAudit.Proofs.Text.Lines

/-!
# Wide arguments

An argument that is longer than everything in sight shows in each text that it becomes a part of. So
a tree with a parameter inside a segment denotes something else with such an argument than what
substitution makes of it: `TypeTree.plain_of_agrees`.
-/

namespace MirAudit

/-! ## Texts and their parts -/

namespace Ty

theorem length_le_render_args {text : String} {args : List String} (h : text ∈ args) :
    text.length ≤ (renderArgs args).length := by
  have hle := length_le_intercalate ", " h
  unfold renderArgs
  split
  next => exact absurd h List.not_mem_nil
  next =>
    simp only [String.length_append]
    omega

theorem length_le_render_tuple {text : String} {elems : List String} (h : text ∈ elems) :
    text.length ≤ (renderTuple elems).length := by
  have hle := length_le_intercalate ", " h
  unfold renderTuple
  split
  next elem =>
    obtain rfl := List.mem_singleton.mp h
    simp only [String.length_append]
    omega
  next =>
    simp only [String.length_append]
    omega

/-- The written form of a part is no longer than that of the type. -/
theorem length_render_part {t u : Ty} (h : u ∈ t.parts) : u.render.length ≤ t.render.length := by
  cases t with
  | scalar name | param name => exact absurd h List.not_mem_nil
  | adt name args =>
      have hle : u.render.length ≤ (renderArgs (args.map render)).length :=
        length_le_render_args (List.mem_map_of_mem h)
      rw [render, renderAll_eq_map, String.length_append]
      omega
  | ref pointee mutable =>
      obtain rfl := List.mem_singleton.mp h
      rw [render, String.length_append]
      omega
  | tuple elems =>
      rw [render, renderAll_eq_map]
      exact length_le_render_tuple (List.mem_map_of_mem (f := render) h)
  | fnDef callee args =>
      have hle : u.render.length ≤ (renderArgs (args.map render)).length :=
        length_le_render_args (List.mem_map_of_mem h)
      rw [render, renderAll_eq_map, String.length_append]
      omega
  | fnPtr inputs output =>
      rw [render, renderAll_eq_map, String.length_append, String.length_append,
        String.length_append]
      rcases List.mem_cons.mp h with rfl | h
      · omega
      · have hle := length_le_intercalate ", " (List.mem_map_of_mem (f := render) h)
        omega

theorem narrow_parts {t : Ty} {bound : Nat} (h : t.render.length < bound) :
    ∀ u ∈ t.parts, u.render.length < bound :=
  fun _ hu => (length_render_part hu).trans_lt h

theorem length_render_adt (name : String) (args : List Ty) :
    name.length ≤ (adt name args).render.length := by
  rw [render, String.length_append]
  omega

theorem length_render_fn_def (callee : DefId) (args : List Ty) :
    callee.path.length ≤ (fnDef callee args).render.length := by
  rw [render, DefId.symbol]
  simp only [String.length_append]
  omega

end Ty

namespace Source

theorem length_impl_segment (selfTy : Ty) (traitDef : DefId) :
    selfTy.render.length ≤ (implSegment selfTy traitDef).length ∧
      traitDef.path.length ≤ (implSegment selfTy traitDef).length := by
  unfold implSegment
  simp only [String.length_append]
  omega

/-! ## Scopes with wide arguments -/

/-- The arguments are longer than the names of the crates and than every name in scope. -/
structure Scope.Wide (direct : Scope) (params : List String) (arg : String → Ty) (bound : Nat) :
    Prop where
  argument : ∀ name ∈ params, bound ≤ (arg name).render.length
  crates : ∀ crate ∈ direct.crates, crate.length < bound
  names : ∀ name, direct.single? name ≠ none → name.length < bound

variable {s s' : Scope} {params : List String} {arg : String → Ty} {bound : Nat}

/-- A long segment is a part of the path of the definition, since it names no crate. -/
theorem Scope.Wide.def_of (hwide : s'.Wide params arg bound) {text : String}
    {segments : List String} (htext : text ∈ segments) (hbound : bound ≤ text.length) :
    bound ≤ (s'.defOf segments).path.length := by
  have hle := length_le_intercalate "::" htext
  unfold Scope.defOf
  split
  next crate next rest =>
    split
    next hcrate =>
      -- the name of a crate is short, so the long segment is one of the others
      rcases List.mem_cons.mp htext with rfl | htext
      · have hlt := hwide.crates text hcrate
        omega
      · have hrest := length_le_intercalate "::" htext
        exact hbound.trans hrest
    next => exact hbound.trans hle
  next => exact hbound.trans hle

/-- A path is nominal if one of its segments is long. -/
theorem Scope.Wide.named (hwide : s'.Wide params arg bound) {region : Region} {path : PathTree}
    {args : List TypeTree} {ty : Ty} {segments : List String} {text : String}
    (hty : (TypeTree.named region path args).lower s' = .ok ty)
    (hsegments : lowerSegments s' path = .ok segments) (htext : text ∈ segments)
    (hbound : bound ≤ text.length) :
    ∃ name tys, ty = .adt name tys ∧ bound ≤ name.length := by
  obtain ⟨tys, found, -, hfound, ⟨name, rfl, hsingle, -⟩ | ⟨-, rfl⟩⟩ := named_lower_eq_ok.mp hty
  · rw [hsegments] at hfound
    cases hfound
    obtain rfl := List.mem_singleton.mp htext
    have hlt := hwide.names text (by simp [hsingle])
    omega
  · rw [hsegments] at hfound
    cases hfound
    exact ⟨_, tys, rfl, hbound.trans (length_le_intercalate "::" htext)⟩

/-- Among some types there is a wide one, if one of their trees looks up a parameter. -/
theorem exists_wide_type {trees : List TypeTree} {tys : List Ty}
    (h : ∀ tree ∈ trees, ∀ name ∈ tree.lookups s, name ∈ params →
      ∀ ty, tree.lower s' = .ok ty → bound ≤ ty.render.length)
    (htys : lowerTypes s' trees = .ok tys) {name : String} (hname : name ∈ lookupsAll s trees)
    (hparam : name ∈ params) : ∃ ty ∈ tys, bound ≤ ty.render.length := by
  obtain ⟨tree, htree, hname⟩ := mem_lookups_all.mp hname
  rw [lower_types_eq_map_m] at htys
  obtain ⟨ty, hty, hlower⟩ := Outcome.exists_of_map_m htys htree
  exact ⟨ty, hty, h tree htree name hname hparam ty hlower⟩

/-- Among some segments there is a wide one, if one of them looks up a parameter. -/
theorem exists_wide_segment {path : PathTree} {segments : List String}
    (h : ∀ segment ∈ path, ∀ name ∈ segment.lookups s, name ∈ params →
      ∀ text, segment.lower s' = .ok text → bound ≤ text.length)
    (hsegments : lowerSegments s' path = .ok segments) {name : String}
    (hname : name ∈ pathLookups s path) (hparam : name ∈ params) :
    ∃ text ∈ segments, bound ≤ text.length := by
  obtain ⟨segment, hsegment, hname⟩ := mem_path_lookups.mp hname
  rw [lower_segments_eq_map_m] at hsegments
  obtain ⟨text, htext, hlower⟩ := Outcome.exists_of_map_m hsegments hsegment
  exact ⟨text, htext, h segment hsegment name hname hparam text hlower⟩

/-- With wide arguments, a named type that looks up a parameter denotes something wide, if its parts
do. -/
theorem Scope.Fills.wide_named (hfills : s.Fills s' params arg)
    (hwide : s'.Wide params arg bound) {region : Region} {path : PathTree} {args : List TypeTree}
    (hpath : ∀ segment ∈ path, ∀ name ∈ segment.lookups s, name ∈ params →
      ∀ text, segment.lower s' = .ok text → bound ≤ text.length)
    (hargs : ∀ tree ∈ args, ∀ name ∈ tree.lookups s, name ∈ params →
      ∀ ty, tree.lower s' = .ok ty → bound ≤ ty.render.length) {name : String}
    (hname : name ∈ (TypeTree.named region path args).lookups s) (hparam : name ∈ params) {ty : Ty}
    (hty : (TypeTree.named region path args).lower s' = .ok ty) : bound ≤ ty.render.length := by
  obtain ⟨tys, segments, htys, hsegments, hcases⟩ := named_lower_eq_ok.mp hty
  -- a parameter inside the path or among the arguments makes the type nominal
  by_cases hinside : ∃ inner ∈ pathLookups s path, inner ∈ params
  · obtain ⟨inner, hinner, hin⟩ := hinside
    obtain ⟨text, htext, hle⟩ := exists_wide_segment hpath hsegments hinner hin
    obtain ⟨nominal, others, rfl, hnominal⟩ := hwide.named hty hsegments htext hle
    exact hnominal.trans (Ty.length_render_adt nominal others)
  have hsame := hfills.lower_segments fun inner hinner hin => hinside ⟨inner, hinner, hin⟩
  simp only [TypeTree.lookups, List.mem_append] at hname
  rcases hname with (hname | hname) | hname
  · rw [hsame, mem_head_lookup.mp hname] at hsegments
    cases hsegments
    rcases hcases with ⟨_, ⟨⟩, hsingle, -⟩ | ⟨hunbound, -⟩
    · rw [hfills.single_argument hparam] at hsingle
      cases hsingle
      exact hwide.argument name hparam
    · have hnone := hunbound name rfl
      rw [hfills.single_argument hparam] at hnone
      cases hnone
  · exact absurd ⟨name, hname, hparam⟩ hinside
  · obtain ⟨part, hpart, hle⟩ := exists_wide_type hargs htys hname hparam
    rcases hcases with ⟨_, -, -, rfl⟩ | ⟨-, rfl⟩
    · exact absurd hpart List.not_mem_nil
    · exact hle.trans (Ty.length_render_part hpart)

/-- With wide arguments, whatever looks up a parameter denotes something wide. -/
theorem Scope.Fills.wide (hfills : s.Fills s' params arg) (hwide : s'.Wide params arg bound) :
    (∀ tree : TypeTree, ∀ name ∈ tree.lookups s, name ∈ params →
      ∀ ty, tree.lower s' = .ok ty → bound ≤ ty.render.length) ∧
    ∀ segment : SegmentTree, ∀ name ∈ segment.lookups s, name ∈ params →
      ∀ text, segment.lower s' = .ok text → bound ≤ text.length := by
  refine tree_induction ?unit ?tuple ?ref ?fnPtr ?fnDef ?never ?named ?name ?qualified
  case unit | never | name =>
    intros
    contradiction
  case tuple =>
    intro elems ih name hname hparam ty hty
    simp only [TypeTree.lower, Outcome.bind_eq_ok, Outcome.pure_eq_ok] at hty
    obtain ⟨tys, htys, rfl⟩ := hty
    obtain ⟨part, hpart, hle⟩ := exists_wide_type ih htys hname hparam
    exact hle.trans (Ty.length_render_part hpart)
  case ref =>
    intro mutable pointee ih name hname hparam ty hty
    simp only [TypeTree.lower, Outcome.bind_eq_ok, Outcome.pure_eq_ok] at hty
    obtain ⟨inner, hinner, rfl⟩ := hty
    have hle := ih name hname hparam inner hinner
    exact hle.trans (Ty.length_render_part List.mem_cons_self)
  case fnPtr =>
    intro inputs output hinputs houtput name hname hparam ty hty
    simp only [TypeTree.lower, Outcome.bind_eq_ok, Outcome.pure_eq_ok] at hty
    obtain ⟨tys, htys, result, hresult, rfl⟩ := hty
    rcases List.mem_append.mp hname with hname | hname
    · obtain ⟨part, hpart, hle⟩ := exists_wide_type hinputs htys hname hparam
      exact hle.trans (Ty.length_render_part (List.mem_cons_of_mem result hpart))
    · have hle := houtput name hname hparam result hresult
      exact hle.trans (Ty.length_render_part List.mem_cons_self)
  case fnDef =>
    intro path args hpath hargs name hname hparam ty hty
    simp only [TypeTree.lower, Outcome.bind_eq_ok, Outcome.pure_eq_ok] at hty
    obtain ⟨segments, hsegments, tys, htys, rfl⟩ := hty
    rcases List.mem_append.mp hname with hname | hname
    · obtain ⟨text, htext, hle⟩ := exists_wide_segment hpath hsegments hname hparam
      exact (hwide.def_of htext hle).trans (Ty.length_render_fn_def _ tys)
    · obtain ⟨part, hpart, hle⟩ := exists_wide_type hargs htys hname hparam
      exact hle.trans (Ty.length_render_part hpart)
  case named =>
    intro region path args hpath hargs name hname hparam ty hty
    exact hfills.wide_named hwide hpath hargs hname hparam hty
  case qualified =>
    intro ty traitPath hty hpath name hname hparam text htext
    simp only [SegmentTree.lower, Outcome.bind_eq_ok, Outcome.pure_eq_ok] at htext
    obtain ⟨selfTy, hself, segments, hsegments, rfl⟩ := htext
    obtain ⟨hselfLength, htraitLength⟩ := length_impl_segment selfTy (s'.defOf segments)
    rcases List.mem_append.mp hname with hname | hname
    · exact (hty name hname hparam selfTy hself).trans hselfLength
    · obtain ⟨part, hpart, hle⟩ := exists_wide_segment hpath hsegments hname hparam
      exact (hwide.def_of hpart hle).trans htraitLength

/-! ## Trees that agree -/

variable {σ : Subst}

/-- What is known of some trees that agree as a list, if that is known of each that agrees. -/
theorem plain_of_types {trees : List TypeTree} {tys : List Ty}
    (h : ∀ tree ∈ trees, ∀ {ty : Ty}, tree.lower s = .ok ty → ty.render.length < bound →
      tree.lower s' = .ok (ty.subst σ) → tree.Plain s params arg σ)
    (htys : lowerTypes s trees = .ok tys) (hnarrow : ∀ ty ∈ tys, ty.render.length < bound)
    (hsame : lowerTypes s' trees = .ok (tys.map (Ty.subst σ))) :
    ∀ tree ∈ trees, tree.Plain s params arg σ := by
  rw [lower_types_eq_map_m] at htys hsame
  intro tree htree
  obtain ⟨ty, hty, hlower, hdirect⟩ := Outcome.map_m_pointwise htys hsame tree htree
  exact h tree htree hlower (hnarrow ty hty) hdirect

section Named

variable {region : Region} {path : PathTree} {args : List TypeTree} {ty : Ty}

/-- A narrow named type that agrees has no parameter inside its path. -/
theorem Scope.Fills.not_param_inside (hfills : s.Fills s' params arg)
    (hwide : s'.Wide params arg bound)
    (htuples : ∀ name ∈ params, ∃ elems, σ.lookup name = some (.tuple elems))
    (hty : (TypeTree.named region path args).lower s = .ok ty) (hnarrow : ty.render.length < bound)
    (hsame : (TypeTree.named region path args).lower s' = .ok (ty.subst σ)) :
    ∀ name ∈ pathLookups s path, name ∉ params := by
  intro name hname hparam
  -- with a parameter inside, the path is a long nominal type, and substitution makes none of `ty`
  obtain ⟨_, texts, _, htexts, _⟩ := named_lower_eq_ok.mp hsame
  obtain ⟨text, htext, hle⟩ :=
    exists_wide_segment (fun segment _ => (hfills.wide hwide).2 segment) htexts hname hparam
  obtain ⟨nominal, parts, hnominal, hlong⟩ := hwide.named hsame htexts htext hle
  obtain ⟨tys, segments, -, -, ⟨single, rfl, hbound, rfl⟩ | ⟨-, rfl⟩⟩ := named_lower_eq_ok.mp hty
  · by_cases hsingle : single ∈ params
    · rw [hfills.single_param hsingle] at hbound
      cases hbound
      obtain ⟨elems, htuple⟩ := htuples single hsingle
      rw [Ty.subst, htuple] at hnominal
      cases hnominal
    · rw [Ty.subst_concrete σ (hfills.single_concrete hsingle hbound)] at hnominal
      have hshort := Ty.length_render_adt nominal parts
      rw [hnominal] at hnarrow
      omega
  · cases hnominal
    have hshort := Ty.length_render_adt (String.intercalate "::" segments) tys
    omega

/-- If a parameter agrees where it is written, then the substitution binds it to its argument. -/
theorem Scope.Fills.lookup_of_named (hfills : s.Fills s' params arg) {name : String}
    (hparam : name ∈ params) (htuple : ∃ elems, σ.lookup name = some (.tuple elems))
    (hname : lowerSegments s path = .ok [name]) (hpath : lowerSegments s' path = .ok [name])
    (hty : (TypeTree.named region path args).lower s = .ok ty)
    (hsame : (TypeTree.named region path args).lower s' = .ok (ty.subst σ)) :
    σ.lookup name = some (arg name) := by
  obtain ⟨_, _, _, hsegments, hcases⟩ := named_lower_eq_ok.mp hty
  obtain ⟨_, _, _, htexts, hdirect⟩ := named_lower_eq_ok.mp hsame
  rw [hname] at hsegments
  rw [hpath] at htexts
  cases hsegments
  cases htexts
  -- a parameter is bound in both scopes, so that the type is no nominal one in either
  rcases hcases with ⟨_, ⟨⟩, hbound, -⟩ | ⟨hunbound, -⟩
  · rcases hdirect with ⟨_, ⟨⟩, hargument, -⟩ | ⟨hunbound, -⟩
    · rw [hfills.single_param hparam] at hbound
      cases hbound
      obtain ⟨elems, htuple⟩ := htuple
      rw [hfills.single_argument hparam, Ty.subst, htuple] at hargument
      rw [htuple]
      exact hargument.symm
    · have hnone := hunbound name rfl
      rw [hfills.single_argument hparam] at hnone
      cases hnone
  · have hnone := hunbound name rfl
    rw [hfills.single_param hparam] at hnone
    cases hnone

/-- A named type that agrees is plain, if its arguments are plain where they agree. -/
theorem Scope.Fills.plain_of_named (hfills : s.Fills s' params arg)
    (hwide : s'.Wide params arg bound)
    (htuples : ∀ name ∈ params, ∃ elems, σ.lookup name = some (.tuple elems))
    (hargs : ∀ tree ∈ args, ∀ {ty : Ty}, tree.lower s = .ok ty → ty.render.length < bound →
      tree.lower s' = .ok (ty.subst σ) → tree.Plain s params arg σ)
    (hty : (TypeTree.named region path args).lower s = .ok ty) (hnarrow : ty.render.length < bound)
    (hsame : (TypeTree.named region path args).lower s' = .ok (ty.subst σ)) :
    (TypeTree.named region path args).Plain s params arg σ := by
  have hinside := hfills.not_param_inside hwide htuples hty hnarrow hsame
  have hpath := hfills.lower_segments hinside
  obtain ⟨tys, segments, htys, hsegments, hcases⟩ := named_lower_eq_ok.mp hty
  obtain ⟨others, texts, hothers, htexts, hdirect⟩ := named_lower_eq_ok.mp hsame
  refine plain_named.mpr ⟨hinside, ?_, ?_⟩
  · intro name hname hparam
    exact hfills.lookup_of_named hparam (htuples name hparam) hname (hpath.trans hname) hty
      hsame
  · rw [hpath, hsegments] at htexts
    cases htexts
    rcases hcases with ⟨_, -, -, rfl⟩ | ⟨hunbound, rfl⟩
    · rw [eq_nil_of_lower_types htys]
      exact fun tree htree => absurd htree List.not_mem_nil
    · rcases hdirect with ⟨name, rfl, hbound, -⟩ | ⟨-, heq⟩
      · have hnone := hfills.single_eq_none_iff.mpr (hunbound name rfl)
        rw [hnone] at hbound
        cases hbound
      · rw [Ty.subst, Ty.substAll_eq_map] at heq
        obtain ⟨-, rfl⟩ := Ty.adt.inj heq
        exact plain_of_types hargs htys (Ty.narrow_parts hnarrow) hothers

end Named

/-- A tree that denotes something narrow, and with wide arguments what substitution makes of that,
is plain. -/
theorem TypeTree.plain_of_agrees (hfills : s.Fills s' params arg)
    (hwide : s'.Wide params arg bound)
    (htuples : ∀ name ∈ params, ∃ elems, σ.lookup name = some (.tuple elems))
    {tree : TypeTree} {ty : Ty} (hty : tree.lower s = .ok ty) (hnarrow : ty.render.length < bound)
    (hsame : tree.lower s' = .ok (ty.subst σ)) : tree.Plain s params arg σ := by
  induction tree using TypeTree.args_induction generalizing ty with
  | unit | never => exact ⟨nofun, nofun⟩
  | tuple elems ih =>
      simp only [TypeTree.lower, Outcome.bind_eq_ok, Outcome.pure_eq_ok] at hty hsame
      obtain ⟨tys, htys, rfl⟩ := hty
      obtain ⟨others, hothers, heq⟩ := hsame
      rw [Ty.subst, Ty.substAll_eq_map] at heq
      cases heq
      exact plain_tuple.mpr (plain_of_types ih htys (Ty.narrow_parts hnarrow) hothers)
  | ref mutable pointee ih =>
      simp only [TypeTree.lower, Outcome.bind_eq_ok, Outcome.pure_eq_ok] at hty hsame
      obtain ⟨inner, hinner, rfl⟩ := hty
      obtain ⟨other, hother, heq⟩ := hsame
      obtain ⟨rfl, -⟩ := Ty.ref.inj heq
      exact ih hinner (Ty.narrow_parts hnarrow inner List.mem_cons_self) hother
  | fnPtr inputs output hinputs houtput =>
      simp only [TypeTree.lower, Outcome.bind_eq_ok, Outcome.pure_eq_ok] at hty hsame
      obtain ⟨tys, htys, result, hresult, rfl⟩ := hty
      obtain ⟨others, hothers, other, hother, heq⟩ := hsame
      rw [Ty.subst, Ty.substAll_eq_map] at heq
      cases heq
      have hparts := Ty.narrow_parts hnarrow
      refine plain_fn_ptr.mpr ⟨plain_of_types hinputs htys ?_ hothers, ?_⟩
      · exact fun part hpart => hparts part (List.mem_cons_of_mem result hpart)
      · exact houtput hresult (hparts result List.mem_cons_self) hother
  | fnDef path args hargs =>
      simp only [TypeTree.lower, Outcome.bind_eq_ok, Outcome.pure_eq_ok] at hty hsame
      obtain ⟨segments, hsegments, tys, htys, rfl⟩ := hty
      obtain ⟨texts, htexts, others, hothers, heq⟩ := hsame
      rw [Ty.subst, Ty.substAll_eq_map] at heq
      obtain ⟨hdef, rfl⟩ := Ty.fnDef.inj heq
      refine plain_fn_def.mpr ⟨fun name hname hparam => ?_,
        plain_of_types hargs htys (Ty.narrow_parts hnarrow) hothers⟩
      -- a parameter inside would make the definition long, but substitution leaves it as it is
      obtain ⟨text, htext, hle⟩ :=
        exists_wide_segment (fun segment _ => (hfills.wide hwide).2 segment) htexts hname hparam
      have hlong := hwide.def_of htext hle
      have hshort := Ty.length_render_fn_def (s.defOf segments) tys
      rw [hdef] at hlong
      omega
  | named region path args hargs =>
      exact hfills.plain_of_named hwide htuples hargs hty hnarrow hsame

end Source

end MirAudit
