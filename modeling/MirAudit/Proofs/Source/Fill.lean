import MirAudit.Proofs.Source.Bindings
import MirAudit.Proofs.Source.Rebuild

/-!
# Declarations with arguments filled in

`FnSource.fill` is the declaration of a generic function in which each parameter denotes its
argument from the start. Read `FnSource.fill_body_iff` first: its body is the generic body with the
arguments put in exactly if each type that is written agrees in both scopes.
-/

namespace MirAudit.Source

namespace FnSource

/-- The parameters that are written in the signature. -/
def written (src : FnSource) : List String :=
  src.signature.generics.map fun param => param.value.name.string

/-- All parameters, in the order of the arguments of an instance. -/
def params (src : FnSource) : List String :=
  src.implicit.map GenericParam.name ++ src.written

/-- What the body sees: each parameter denotes itself. -/
def scope (src : FnSource) : Scope :=
  src.outer.bindSelves src.written

/-- The types written in the signature and in the body. -/
def types (src : FnSource) : List TypeTree :=
  src.signature.inputs ++ src.signature.output.toList ++
    (src.body.map fun tree => tree.value.types).getD []

/-- The declaration without parameters: each name of a parameter denotes its argument from the
start, as `Self` does in an impl. -/
def fill (src : FnSource) (args : List Ty) : FnSource :=
  { src with
    signature := { src.signature with generics := [] }
    outer := src.outer.bindAll (src.params.zip args)
    implicit := [] }

/-! ## Bodies in both scopes -/

variable {src : FnSource} {fn : FnDecl}

theorem names_of_generics {outer : Scope} {trees : List (Spanned ParamTree)}
    {generics : List GenericParam}
    (h : (trees.mapM fun param => param.value.lower outer) = .ok generics) :
    generics.map GenericParam.name = trees.map fun param => param.value.name.string := by
  rw [Outcome.map_m_eq_ok] at h
  induction h with
  | nil => rfl
  | cons hhead _ ih =>
      unfold ParamTree.lower at hhead
      simp only [Outcome.bind_eq_ok, Outcome.pure_eq_ok] at hhead
      obtain ⟨bounds, -, rfl⟩ := hhead
      rw [List.map_cons, List.map_cons, ih]

/-- What a function is built from, when it has a body. -/
theorem lower_some_eq_ok {tree : Spanned BodyTree} (htree : src.body = some tree)
    (h : src.lower = .ok fn) :
    ∃ generics inputs output body,
      generics.map GenericParam.name = src.written ∧
      lowerTypes src.scope src.signature.inputs = .ok inputs ∧
      lowerOutput src.scope src.signature.output = .ok output ∧
      BodyTree.lower src.scope
        { name := src.signature.name.string, generics, inputs, output } tree = .ok body ∧
      fn.body = some body ∧ fn.paramNames = src.params := by
  obtain ⟨sig, scope, body, hsig, hbody, rfl⟩ := lower_eq_ok.mp h
  obtain ⟨generics, inputs, output, hgenerics, -, rfl, hinputs, houtput, rfl⟩ :=
    SignatureTree.lower_eq_ok.mp hsig
  have hnames := names_of_generics hgenerics
  have hscope : src.outer.bindParams generics = src.scope := by
    unfold Scope.bindParams FnSource.scope Scope.bindSelves Scope.bindAll written
    rw [← hnames, List.map_map, List.foldl_map]
    rfl
  rw [hscope] at hinputs houtput hbody
  rw [htree] at hbody
  obtain ⟨lowered, hlower, rfl⟩ := Outcome.map_eq_ok.mp hbody
  refine ⟨generics, inputs, output, lowered, hnames, hinputs, houtput, hlower, rfl, ?_⟩
  show (src.implicit ++ generics).map GenericParam.name = src.params
  rw [List.map_append, hnames]
  rfl

/-- What the filled declaration is built from. -/
theorem fill_lower_eq_ok {args : List Ty} :
    (src.fill args).lower = .ok fn ↔
      ∃ inputs output body,
        lowerTypes (src.fill args).outer src.signature.inputs = .ok inputs ∧
        lowerOutput (src.fill args).outer src.signature.output = .ok output ∧
        lowerBody (src.fill args).outer
          { name := src.signature.name.string, generics := [], inputs, output } src.body =
            .ok body ∧
        (src.fill args).toFn
          { name := src.signature.name.string, generics := [], inputs, output } body = fn := by
  rw [lower_eq_ok]
  constructor
  · intro h
    obtain ⟨sig, scope, body, hsig, hbody, hfn⟩ := h
    obtain ⟨generics, inputs, output, hgenerics, -, rfl, hinputs, houtput, rfl⟩ :=
      SignatureTree.lower_eq_ok.mp hsig
    obtain rfl : [] = generics := Outcome.pure_eq_ok.mp hgenerics
    exact ⟨inputs, output, body, hinputs, houtput, hbody, hfn⟩
  · intro h
    obtain ⟨inputs, output, body, hinputs, houtput, hbody, hfn⟩ := h
    refine ⟨_, _, body, SignatureTree.lower_eq_ok.mpr ⟨[], inputs, output, rfl, rfl, rfl, hinputs,
      houtput, rfl⟩, hbody, hfn⟩

/-- The filled declaration has the substituted body exactly if each type of the declaration agrees
in both scopes. -/
theorem fill_body_iff {args : List Ty} {σ : Subst} {tree : Spanned BodyTree} {generic : Body}
    (htree : src.body = some tree) (h : src.lower = .ok fn) (hbody : fn.body = some generic) :
    (∃ filled, (src.fill args).lower = .ok filled ∧ filled.body = some (generic.subst σ)) ↔
      ∀ ty ∈ src.types, ty.Agrees src.scope (src.fill args).outer σ := by
  obtain ⟨generics, inputs, output, body, -, hinputs, houtput, hlower, hsome, -⟩ :=
    lower_some_eq_ok htree h
  obtain rfl := Option.some.inj (hsome.symm.trans hbody)
  rw [types, htree, Option.map_some, Option.getD_some,
    ← lower_body_subst_iff [] hinputs houtput hlower]
  constructor
  · intro h
    obtain ⟨filled, hfilled, hsame⟩ := h
    obtain ⟨inputs', output', body', hinputs', houtput', hbody', rfl⟩ :=
      fill_lower_eq_ok.mp hfilled
    rw [htree] at hbody'
    obtain ⟨lowered, hlowered, rfl⟩ := Outcome.map_eq_ok.mp hbody'
    obtain rfl := Option.some.inj hsame
    exact ⟨inputs', output', hinputs', houtput', hlowered⟩
  · intro h
    obtain ⟨inputs', output', hinputs', houtput', hlowered⟩ := h
    refine ⟨_, fill_lower_eq_ok.mpr ⟨inputs', output', some (body.subst σ), hinputs', houtput', ?_,
      rfl⟩, rfl⟩
    rw [htree]
    exact Outcome.map_eq_ok.mpr ⟨_, hlowered, rfl⟩

/-- Every type written in a function that was registered denotes a type. -/
theorem types_denote {tree : Spanned BodyTree} (htree : src.body = some tree)
    (h : src.lower = .ok fn) : ∀ ty ∈ src.types, ty.Denotes src.scope := by
  obtain ⟨generics, inputs, output, body, -, hinputs, houtput, hbody, -⟩ :=
    lower_some_eq_ok htree h
  rw [types, htree, Option.map_some, Option.getD_some, List.forall_mem_append,
    List.forall_mem_append]
  refine ⟨⟨lower_types_denote hinputs, fun ty hty => ?_⟩, BodyTree.types_denote hbody⟩
  rw [Option.mem_toList] at hty
  rw [hty] at houtput
  exact ⟨output, houtput⟩

/-! ## Arguments in scope -/

/-- The scope around a signature binds the implicit parameters to themselves, and else only concrete
types. -/
structure Rooted (src : FnSource) : Prop where
  implicit : ∀ name ∈ src.implicit.map GenericParam.name,
    src.outer.types.lookup name = some (.param name)
  concrete : ∀ name ∉ src.implicit.map GenericParam.name, ∀ ty,
    src.outer.types.lookup name = some ty → ty.hasParam = false

/-- The argument that the filled declaration binds a parameter to: that of its last place. -/
def argument (src : FnSource) (args : List Ty) (name : String) : Ty :=
  ((src.params.zip args).reverse.lookup name).getD .unit

section Arguments

variable {args : List Ty} {name : String}

theorem map_fst_zip_params (hlength : args.length = src.params.length) :
    (src.params.zip args).map Prod.fst = src.params :=
  List.map_fst_zip hlength.ge

theorem map_snd_zip_params (hlength : args.length = src.params.length) :
    (src.params.zip args).map Prod.snd = args :=
  List.map_snd_zip hlength.le

/-- Each parameter is bound to its argument. -/
theorem lookup_reverse_argument (hlength : args.length = src.params.length)
    (hname : name ∈ src.params) :
    (src.params.zip args).reverse.lookup name = some (src.argument args name) := by
  rw [← map_fst_zip_params hlength] at hname
  obtain ⟨ty, hty⟩ := exists_lookup_reverse hname
  rw [argument, hty]
  rfl

theorem argument_mem (hlength : args.length = src.params.length) (hname : name ∈ src.params) :
    src.argument args name ∈ args := by
  have hmem := mem_of_lookup (lookup_reverse_argument hlength hname)
  have hmapped := List.mem_map_of_mem (f := Prod.snd) (List.mem_reverse.mp hmem)
  rwa [map_snd_zip_params hlength] at hmapped

/-- Where the filled declaration stands, each parameter denotes its argument, and everything else
denotes what it denotes in the body. -/
theorem Rooted.fills (h : src.Rooted) (hlength : args.length = src.params.length) :
    src.scope.Fills (src.fill args).outer src.params (src.argument args) where
  crates := by
    unfold scope fill Scope.bindSelves
    rw [Scope.bind_all_eq, Scope.bind_all_eq]
    exact ⟨rfl, fun _ => Iff.rfl⟩
  param name hname := by
    by_cases hwritten : name ∈ src.written
    · exact Scope.lookup_bind_selves hwritten
    · rw [scope, Scope.lookup_bind_selves_of_not_mem hwritten]
      exact h.implicit name ((List.mem_append.mp hname).resolve_right hwritten)
  argument name hname := by
    unfold fill
    rw [Scope.lookup_bind_all, lookup_reverse_argument hlength hname, Option.some_or]
  other name hname := by
    unfold fill scope
    rw [Scope.lookup_bind_all_of_not_mem, Scope.lookup_bind_selves_of_not_mem]
    · exact fun hwritten => hname (List.mem_append_right _ hwritten)
    · rwa [map_fst_zip_params hlength]
  concrete name hname ty hty := by
    rw [scope, Scope.lookup_bind_selves_of_not_mem] at hty
    · exact h.concrete name (fun himplicit => hname (List.mem_append_left _ himplicit)) ty hty
    · exact fun hwritten => hname (List.mem_append_right _ hwritten)

end Arguments

end FnSource

end MirAudit.Source
