import Mathlib.Algebra.Order.BigOperators.Group.List
import Mathlib.Algebra.Order.Group.Nat
import MirAudit.Proofs.Source.Fill
import MirAudit.Proofs.Source.Load
import MirAudit.Proofs.Source.Towers

/-!
# Instances of declarations

An instance of a generic function has the generic body with its arguments put in.
`instances_built_iff` says for which functions of a text these are the bodies of the filled
declarations: those in which no parameter becomes a part of a text before it is replaced.
-/

namespace MirAudit.Source

namespace FnSource

/-- The program gives the instance the body that is built when the parameters denote the
arguments. -/
def BuildsInstance (src : FnSource) (p : Program) (args : List Ty) : Prop :=
  ∃ fn, (src.fill args).lower = .ok fn ∧ p.bodyOf ⟨src.defId, args⟩ = .ok fn.body

instance (src : FnSource) (p : Program) (args : List Ty) : Decidable (src.BuildsInstance p args) :=
  match hlower : (src.fill args).lower with
  | .error _ => isFalse fun ⟨_, hfn, _⟩ => nomatch hlower.symm.trans hfn
  | .ok fn =>
    decidable_of_iff ((p.bodyOf ⟨src.defId, args⟩).toOption = some fn.body) <| by
      unfold BuildsInstance
      rw [hlower]
      cases p.bodyOf ⟨src.defId, args⟩ <;> simp [Except.toOption]

/-- No parameter is looked up inside a segment `<Type as Trait>`, and no name that is looked up is
a parameter twice. -/
def Transparent (src : FnSource) : Prop :=
  ∀ tree ∈ src.types, (∀ name ∈ tree.flattened src.scope, name ∉ src.params) ∧
    ∀ name ∈ tree.lookups src.scope, src.params.count name ≤ 1

variable {src : FnSource} {args : List Ty}

/-- In a transparent declaration every type agrees with its filled form. -/
theorem Rooted.agrees (h : src.Rooted) (hlength : args.length = src.params.length)
    (htransparent : src.Transparent) :
    ∀ tree ∈ src.types, tree.Agrees src.scope (src.fill args).outer ⟨src.params.zip args⟩ := by
  intro tree htree
  obtain ⟨hinside, honce⟩ := htransparent tree htree
  refine TypeTree.lower_subst (h.fills hlength) ⟨hinside, fun name hlookup hname => ?_⟩
  have hcount := honce name hlookup
  rw [← map_fst_zip_params hlength] at hcount
  rw [Subst.lookup, ← lookup_reverse_of_count hcount, lookup_reverse_argument hlength hname]

/-! ## Arguments that reveal -/

/-- The arguments are different tuples, and longer than everything in sight of the declaration. -/
structure Revealing (src : FnSource) (args : List Ty) (bound : Nat) : Prop where
  length : args.length = src.params.length
  distinct : args.Nodup
  tuples : ∀ arg ∈ args, ∃ elems, arg = .tuple elems
  wide : (src.fill args).outer.Wide src.params (src.argument args) bound
  narrow : ∀ tree ∈ src.types, ∀ ty, tree.lower src.scope = .ok ty → ty.render.length < bound

/-- What is in sight of the declaration: names of crates, bound names, and types as written. -/
def sight (src : FnSource) : List String :=
  src.outer.crates ++ src.params ++ src.outer.types.map Prod.fst ++ Ty.scalarNames ++
    src.types.map fun tree => (tree.lower src.scope).toOption.elim "" Ty.render

theorem mem_sight_of_single {args : List Ty} {name : String}
    (hlength : args.length = src.params.length)
    (h : (src.fill args).outer.single? name ≠ none) : name ∈ src.sight := by
  simp only [sight, List.mem_append]
  obtain ⟨ty, hty⟩ := Option.ne_none_iff_exists'.mp h
  rcases Scope.single_eq_some hty with hbound | ⟨hscalar, -⟩
  · by_cases hname : name ∈ src.params
    · exact Or.inl (Or.inl (Or.inl (Or.inr hname)))
    · unfold fill at hbound
      rw [Scope.lookup_bind_all_of_not_mem (by rwa [map_fst_zip_params hlength])] at hbound
      have hmem := List.mem_map_of_mem (f := Prod.fst) (mem_of_lookup hbound)
      exact Or.inl (Or.inl (Or.inr hmem))
  · exact Or.inl (Or.inr hscalar)

theorem exists_bound (texts : List String) : ∃ bound, ∀ text ∈ texts, text.length < bound := by
  refine ⟨(texts.map String.length).sum + 1, fun text htext => ?_⟩
  have hle := List.le_sum_of_mem (List.mem_map_of_mem (f := String.length) htext)
  omega

/-- Whatever is in sight, there are denotable arguments that reveal. -/
theorem exists_revealing (src : FnSource) (s : Scope) :
    ∃ args bound, src.Revealing args bound ∧ ∀ arg ∈ args, s.Denotable arg := by
  -- towers of different heights differ, and high ones are longer than all that is in sight
  obtain ⟨bound, hbound⟩ := exists_bound src.sight
  have hlength : ((List.range src.params.length).map fun n => Ty.tower (bound + n)).length =
      src.params.length := by
    rw [List.length_map, List.length_range]
  refine ⟨(List.range src.params.length).map fun n => .tower (bound + n), bound,
    ⟨hlength, ?_, ?_, ⟨?_, ?_, ?_⟩, ?_⟩, ?_⟩
  · refine List.Nodup.map (fun m n heq => ?_) List.nodup_range
    have hsame := Ty.tower_injective heq
    omega
  · intro arg harg
    obtain ⟨n, -, rfl⟩ := List.mem_map.mp harg
    exact Ty.tower_eq_tuple (bound + n)
  · intro name hname
    obtain ⟨n, -, heq⟩ := List.mem_map.mp (argument_mem hlength hname)
    rw [← heq, Ty.length_render_tower]
    omega
  · intro crate hcrate
    unfold fill at hcrate
    rw [Scope.bind_all_eq] at hcrate
    refine hbound crate ?_
    simp only [sight, List.mem_append]
    exact Or.inl (Or.inl (Or.inl (Or.inl hcrate)))
  · intro name hname
    exact hbound name (mem_sight_of_single hlength hname)
  · intro tree htree ty hty
    refine hbound ty.render ?_
    simp only [sight, List.mem_append]
    exact Or.inr (List.mem_map.mpr ⟨tree, htree, by rw [hty]; rfl⟩)
  · intro arg harg
    obtain ⟨n, -, rfl⟩ := List.mem_map.mp harg
    exact denotable_tower s (bound + n)

/-- If the arguments reveal and every type agrees with its filled form, then the declaration is
transparent. -/
theorem Rooted.transparent (h : src.Rooted) {args : List Ty} {bound : Nat}
    (hargs : src.Revealing args bound) (hdenote : ∀ tree ∈ src.types, tree.Denotes src.scope)
    (hagrees :
      ∀ tree ∈ src.types, tree.Agrees src.scope (src.fill args).outer ⟨src.params.zip args⟩) :
    src.Transparent := by
  have htuples : ∀ name ∈ src.params, ∃ elems,
      Subst.lookup ⟨src.params.zip args⟩ name = some (.tuple elems) := by
    intro name hname
    rw [← map_fst_zip_params hargs.length] at hname
    obtain ⟨ty, hty⟩ := exists_lookup hname
    have hmem := List.mem_map_of_mem (f := Prod.snd) (mem_of_lookup hty)
    rw [map_snd_zip_params hargs.length] at hmem
    obtain ⟨elems, rfl⟩ := hargs.tuples ty hmem
    exact ⟨elems, hty⟩
  intro tree htree
  obtain ⟨ty, hty⟩ := hdenote tree htree
  obtain ⟨hinside, hbound⟩ := TypeTree.plain_of_agrees (h.fills hargs.length) hargs.wide htuples
    hty (hargs.narrow tree htree ty hty) (hagrees tree htree ty hty)
  refine ⟨hinside, fun name hname => ?_⟩
  by_cases hparam : name ∈ src.params
  · -- the substitution takes the first binding and the scope the last, and no two are the same
    have hdistinct := hargs.distinct
    rw [← map_snd_zip_params hargs.length] at hdistinct
    have hcount := count_le_one_of_lookup_reverse hdistinct (hbound name hname hparam)
      (lookup_reverse_argument hargs.length hparam)
    rwa [map_fst_zip_params hargs.length] at hcount
  · rw [List.count_eq_zero.mpr hparam]
    exact Nat.zero_le 1

end FnSource

/-! ## Functions of a text -/

/-- Around the signatures of a text, `Self` is itself in traits and a concrete type in impls. -/
theorem Declares.rooted {l : Loader} {item : Spanned ItemTree} {src : FnSource}
    (h : Declares l item src) (htypes : l.scope.types = []) : src.Rooted := by
  have houter : ∀ name ty, l.scope.types.lookup name ≠ some ty := by
    intro name ty hty
    rw [htypes] at hty
    cases hty
  cases h with
  | ofCrate | foreign | free =>
      exact ⟨nofun, fun name _ ty hty => absurd hty (houter name ty)⟩
  | ofTrait =>
      constructor
      · intro name hname
        obtain rfl := List.mem_singleton.mp hname
        exact List.lookup_cons_self
      · intro name hname ty hty
        change (("Self", Ty.param "Self") :: l.scope.types).lookup name = some ty at hty
        rw [lookup_cons_eq, if_neg fun heq => hname (List.mem_singleton.mpr heq)] at hty
        exact absurd hty (houter name ty)
  | @ofImpl _ _ _ _ _ selfTy _ _ hself _ =>
      refine ⟨nofun, fun name _ ty hty => ?_⟩
      change (("Self", selfTy) :: l.scope.types).lookup name = some ty at hty
      rw [lookup_cons_eq] at hty
      split at hty
      next =>
        cases hty
        refine TypeTree.lower_concrete (fun name ty hty => ?_) hself
        exact absurd hty (houter name ty)
      next => exact absurd hty (houter name ty)

namespace Loaded

variable {l : Loader} {items : List (Spanned ItemTree)} {p : Program} {item : Spanned ItemTree}
  {src : FnSource} {tree : Spanned BodyTree}

/-- An instance has the body of the filled declaration exactly if each type of the declaration
agrees in both. -/
theorem builds_instance_iff (hp : Loaded l items p) (hitem : item ∈ items)
    (hdeclares : Declares l item src) (htree : src.body = some tree) {args : List Ty}
    (hlength : args.length = src.params.length) :
    src.BuildsInstance p args ↔
      ∀ ty ∈ src.types, ty.Agrees src.scope (src.fill args).outer ⟨src.params.zip args⟩ := by
  obtain ⟨fn, hlower, hfound⟩ := hp.entered hitem hdeclares
  obtain ⟨_, _, _, generic, -, -, -, -, hbody, hparams⟩ := FnSource.lower_some_eq_ok htree hlower
  -- extern functions have no body
  have hlocal : fn.isExtern = false := by
    cases hextern : fn.isExtern with
    | false => rfl
    | true =>
        have hnone := hp.registered.extern_body hfound hextern
        rw [hbody] at hnone
        cases hnone
  have hinstance : p.bodyOf ⟨src.defId, args⟩ =
      .ok (some (generic.subst ⟨src.params.zip args⟩)) := by
    refine Program.body_of_eq_some.mpr ⟨fn, generic, hfound, hlocal, hbody, ?_, ?_⟩
    · rw [hparams, hlength]
    · rw [hparams]
  rw [← FnSource.fill_body_iff htree hlower hbody]
  unfold FnSource.BuildsInstance
  rw [hinstance]
  simp only [Except.ok.injEq, eq_comm]

/-- All instances of a function have the bodies of its filled declarations exactly if it is
transparent. -/
theorem builds_instances_iff (hp : Loaded l items p) (hitem : item ∈ items)
    (hdeclares : Declares l item src) (htree : src.body = some tree) :
    (∀ args, args.length = src.params.length → (∀ arg ∈ args, l.scope.Denotable arg) →
        src.BuildsInstance p args) ↔ src.Transparent := by
  have hrooted := hdeclares.rooted hp.no_types
  constructor
  · intro hall
    obtain ⟨fn, hlower, -⟩ := hp.entered hitem hdeclares
    -- one list of arguments is enough, if it reveals every parameter that becomes text
    obtain ⟨args, bound, hargs, hdenotable⟩ := src.exists_revealing l.scope
    have hbuilds := hall args hargs.length hdenotable
    refine hrooted.transparent hargs (FnSource.types_denote htree hlower) ?_
    exact (hp.builds_instance_iff hitem hdeclares htree hargs.length).mp hbuilds
  · intro htransparent args hlength _
    refine (hp.builds_instance_iff hitem hdeclares htree hlength).mpr ?_
    exact hrooted.agrees hlength htransparent

end Loaded

/-- For every function of an accepted text that has a body, generic or not: all its instances have
the bodies that are built when its parameters denote the arguments, exactly if no parameter is
looked up inside a segment `<Type as Trait>` and no name that is looked up is a parameter twice. -/
theorem instances_built_iff {file : Option String} {text : List Char} {p : Program}
    (h : loadText file text = .ok p) :
    ∃ items crate, readText text = .ok items ∧ p.crateName? = some crate ∧
      ∀ item ∈ items, ∀ src,
        Declares ⟨file, ⟨crate, crate :: p.externals.map Crate.name, []⟩⟩ item src →
        src.body.isSome = true →
        ((∀ args, args.length = src.params.length →
            (∀ arg ∈ args,
              Scope.Denotable ⟨crate, crate :: p.externals.map Crate.name, []⟩ arg) →
            src.BuildsInstance p args) ↔ src.Transparent) := by
  obtain ⟨items, l, hread, hfile, hp⟩ := loaded_of_text h
  obtain ⟨lfile, ⟨crate, crates, types⟩⟩ := l
  obtain rfl : lfile = file := hfile
  obtain rfl : crates = crate :: p.externals.map Crate.name := hp.crates
  obtain rfl : types = [] := hp.no_types
  refine ⟨items, crate, hread, hp.crateName, fun item hitem src hdeclares hbody => ?_⟩
  obtain ⟨tree, htree⟩ := Option.isSome_iff_exists.mp hbody
  exact hp.builds_instances_iff hitem hdeclares htree

/-- A generic function that calls a method of its parameter as the impl has it. -/
def reportText : String :=
  "trait Describe \x7b fn describe(Self); \x7d
fn report<T: Describe>(T) \x7b
    let _0: ();
    let _1: T;
    bb0: \x7b call _0 = fndef <T as Describe>::describe(move _1) -> bb1; \x7d
    bb1: \x7b return; \x7d
\x7d
"

/-- Some function of the items with one parameter does not have the body for unit that is built when
the parameter denotes unit. -/
def hasUnbuilt (p : Program) (items : List (Spanned ItemTree)) : Bool :=
  items.any fun item =>
    match item.value with
    | .fn _ signature body =>
      let src := FnSource.free ⟨none, ⟨"main", ["main"], []⟩⟩ item.region signature body
      decide (src.params.length = 1) && decide (¬ src.BuildsInstance p [.unit])
    | _ => false

set_option maxRecDepth 20000 in
theorem load_report : ∃ p items, loadText none reportText.toList = .ok p ∧
    readText reportText.toList = .ok items ∧ hasUnbuilt p items = true := by
  have htest : (readText reportText.toList).toOption.any (fun items =>
      (loadItems none items).toOption.any (hasUnbuilt · items)) = true :=
    Outcome.test_of_chars (f := fun text => (readText text).toOption.any fun items =>
      (loadItems none items).toOption.any (hasUnbuilt · items)) (by decide +kernel)
  obtain ⟨items, hread, htest⟩ := Outcome.exists_of_any htest
  obtain ⟨p, hload, htest⟩ := Outcome.exists_of_any htest
  exact ⟨p, items, load_text_eq_ok.mpr ⟨items, hread, hload⟩, hread, htest⟩

/-- The criterion at a text: its functions have the right instances exactly if they are
transparent. -/
theorem instances_built_report :
    ∃ p, loadText none reportText.toList = .ok p ∧
      ∃ items crate, readText reportText.toList = .ok items ∧ p.crateName? = some crate ∧
        ∀ item ∈ items, ∀ src,
          Declares ⟨none, ⟨crate, crate :: p.externals.map Crate.name, []⟩⟩ item src →
          src.body.isSome = true →
          ((∀ args, args.length = src.params.length →
              (∀ arg ∈ args,
                Scope.Denotable ⟨crate, crate :: p.externals.map Crate.name, []⟩ arg) →
              src.BuildsInstance p args) ↔ src.Transparent) := by
  obtain ⟨p, _, hload, -⟩ := load_report
  exact ⟨p, hload, instances_built_iff hload⟩

/-- A function of the text has an instance at a denotable type that is not the body that is built
when the parameter denotes that type. -/
theorem report_not_built :
    ∃ p items, loadText none reportText.toList = .ok p ∧
      readText reportText.toList = .ok items ∧
      ∃ item ∈ items, ∃ src, Declares ⟨none, ⟨"main", ["main"], []⟩⟩ item src ∧
        src.body.isSome = true ∧ [Ty.unit].length = src.params.length ∧
        Scope.Denotable ⟨"main", ["main"], []⟩ .unit ∧ ¬ src.BuildsInstance p [.unit] := by
  obtain ⟨p, items, hload, hread, htest⟩ := load_report
  refine ⟨p, items, hload, hread, ?_⟩
  obtain ⟨⟨value, region⟩, hitem, htest⟩ := List.any_eq_true.mp htest
  refine ⟨_, hitem, ?_⟩
  cases value with
  | fn entry signature body =>
      obtain ⟨hlength, hdiffers⟩ := Bool.and_eq_true_iff.mp htest
      exact ⟨_, .free, rfl, (of_decide_eq_true hlength).symm, denotable_tower _ 0,
        of_decide_eq_true hdiffers⟩
  | crate | externCrate | externFn | struct | trait | impl => cases htest

end MirAudit.Source
