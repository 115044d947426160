import MirAudit.Proofs.Source.Instances

/-!
# Bodies of instances are concrete

Around a signature only its implicit parameters and concrete types are bound, and the body sees the
written parameters as well. Every parameter has its place in the list that an instance fills, so no
parameter is left in the body of an instance: `Loaded.body_concrete`.
-/

namespace MirAudit.Source

/-- A type is concrete after a substitution if everything in scope is. -/
theorem TypeTree.lower_subst_concrete {s : Scope} {σ : Subst}
    (hscope : ∀ name ty, s.types.lookup name = some ty → (ty.subst σ).hasParam = false)
    {tree : TypeTree} {ty : Ty} (h : tree.lower s = .ok ty) : (ty.subst σ).hasParam = false := by
  refine lower_induction (P := fun t => (t.subst σ).hasParam = false) ?_ hscope h
  intro t ht hparts
  obtain ⟨name, rfl⟩ | ⟨hhead, hmap⟩ := t.head_parts_subst σ
  · exact absurd rfl (ht name)
  · refine Ty.has_param_eq_false_iff.mpr ⟨fun name heq => ht name ?_, fun u hu => ?_⟩
    · -- only a parameter has the head of a parameter
      rw [heq] at hhead
      cases t <;> cases hhead
      rfl
    · rw [hmap] at hu
      obtain ⟨part, hpart, rfl⟩ := List.mem_map.mp hu
      exact hparts part hpart

namespace FnSource

variable {src : FnSource} {args : List Ty}

/-- With concrete arguments put in, everything that the body sees is concrete. -/
theorem Rooted.closes (h : src.Rooted) (hlength : args.length = src.params.length)
    (hargs : ∀ arg ∈ args, arg.hasParam = false) (name : String) (ty : Ty)
    (hbound : src.scope.types.lookup name = some ty) :
    (ty.subst ⟨src.params.zip args⟩).hasParam = false := by
  by_cases hname : name ∈ src.params
  · rw [(h.fills hlength).param name hname] at hbound
    obtain rfl := Option.some.inj hbound
    rw [← map_fst_zip_params hlength] at hname
    obtain ⟨arg, harg⟩ := exists_lookup hname
    have hmem := List.mem_map_of_mem (f := Prod.snd) (mem_of_lookup harg)
    rw [map_snd_zip_params hlength] at hmem
    rw [Ty.subst, show Subst.lookup ⟨src.params.zip args⟩ name = some arg from harg]
    exact hargs arg hmem
  · have hconcrete := (h.fills hlength).concrete name hname ty hbound
    rw [Ty.subst_concrete _ hconcrete]
    exact hconcrete

/-- With concrete arguments put in, the body of a function is concrete. -/
theorem Rooted.body_concrete (h : src.Rooted) {fn : FnDecl} {generic : Body}
    (hlower : src.lower = .ok fn) (hbody : fn.body = some generic)
    (hlength : args.length = fn.paramNames.length)
    (hargs : ∀ arg ∈ args, arg.hasParam = false) :
    ∀ ty ∈ (generic.subst ⟨fn.paramNames.zip args⟩).types, ty.hasParam = false := by
  obtain ⟨tree, htree⟩ : ∃ tree, src.body = some tree := by
    rw [← Option.isSome_iff_exists, ← (lower_fits hlower).hasBody, hbody]
    rfl
  obtain ⟨_, _, _, lowered, -, -, -, hlowered, hsome, hparams⟩ := lower_some_eq_ok htree hlower
  obtain rfl := Option.some.inj (hsome.symm.trans hbody)
  rw [hparams] at hlength ⊢
  have htypes := BodyTree.lower_types hlowered
  rw [lower_types_eq_map_m] at htypes
  intro ty hty
  rw [Body.types_subst] at hty
  obtain ⟨written, hwritten, rfl⟩ := List.mem_map.mp hty
  obtain ⟨tree, -, hdenotes⟩ := Outcome.of_mem_map_m htypes hwritten
  exact TypeTree.lower_subst_concrete (h.closes hlength hargs) hdenotes

end FnSource

/-- The body of an instance with concrete arguments is concrete. -/
theorem Loaded.body_concrete {l : Loader} {items : List (Spanned ItemTree)} {p : Program}
    (hp : Loaded l items p) {i : Instance} (hargs : ∀ arg ∈ i.args, arg.hasParam = false)
    {body : Body} (h : p.bodyOf i = .ok (some body)) : ∀ ty ∈ body.types, ty.hasParam = false := by
  obtain ⟨fn, generic, hfn, -, hbody, hlength, rfl⟩ := Program.body_of_eq_some.mp h
  obtain ⟨item, -, src, hdeclares, hlower⟩ := hp.found hfn
  exact (hdeclares.rooted hp.no_types).body_concrete hlower hbody hlength.symm hargs

end MirAudit.Source
