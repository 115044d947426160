import MirAudit.Program.Resolution
import MirAudit.Proofs.Outcome

/-!
# Resolution

`resolve_cases` says what resolution gives. It has as many arguments as its function has parameters
(`resolve_arity`), none of which holds a parameter (`resolve_concrete`), and resolving it again
changes nothing (`resolve_resolved`). How resolution fails is `resolve_eq_error`. The last section
says when an instance has a body.
-/

namespace MirAudit

/-- The fault is about what was looked up or counted: neither about an argument that holds a
parameter nor about a missing `Self`. -/
def ResolutionFault.Plain : ResolutionFault → Prop
  | .unknownFn _ | .arity _ _ _ | .unmetBound _ _ _ _ | .missingFn _ _ | .missingImpl _ _ => True
  | .tooGeneric _ _ | .noSelf => False

namespace Environment

variable {env : Environment}

/-- Lookups that give each function under its own identity, where impls name functions that are not
methods of traits. -/
structure Coherent (env : Environment) : Prop where
  def_id : ∀ {id fn}, env.fnDecl id = some fn → fn.defId = id
  impl_fn : ∀ {traitDef selfTy method impl target fn},
    env.implMethod? traitDef selfTy method = some (impl, target) →
    env.fnDecl target = some fn → fn.traitDef = none

theorem check_arity_eq_ok {fn : FnDecl} {args : List Ty} :
    checkArity fn args = .ok () ↔ args.length = fn.generics.length := by
  unfold checkArity
  split
  next h => exact ⟨fun _ => h, fun _ => rfl⟩
  next h =>
    constructor
    · intro herror
      cases herror
    · exact fun heq => absurd heq h

theorem check_concrete_eq_ok {fn : DefId} {args : List Ty} :
    checkConcrete fn args = .ok () ↔ ∀ arg ∈ args, arg.hasParam = false := by
  unfold checkConcrete
  cases hfind : args.find? Ty.hasParam with
  | none =>
      rw [List.find?_eq_none] at hfind
      exact ⟨fun _ arg harg => Bool.eq_false_iff.mpr (hfind arg harg), fun _ => rfl⟩
  | some arg =>
      constructor
      · intro herror
        cases herror
      · intro h
        have hparam := List.find?_some hfind
        rw [h arg (List.mem_of_find?_eq_some hfind)] at hparam
        cases hparam

/-- When a method of an impl can be instantiated. -/
theorem resolve_in_impl_eq_ok {impl : TraitImpl} {target : DefId} {rest : List Ty} {i : Instance} :
    env.resolveInImpl impl target rest = .ok i ↔
      ∃ fn, env.fnDecl target = some fn ∧ rest.length = fn.generics.length ∧
        env.checkBounds fn rest = .ok () ∧ i = ⟨target, rest⟩ := by
  unfold resolveInImpl
  cases hfn : env.fnDecl target with
  | none =>
      constructor
      · intro herror
        cases herror
      · intro h
        obtain ⟨_, ⟨⟩, _⟩ := h
  | some fn =>
      simp only [Outcome.check_bind_eq_ok, Outcome.pure_eq_ok, check_arity_eq_ok]
      constructor
      · intro h
        obtain ⟨harity, hbounds, rfl⟩ := h
        exact ⟨fn, rfl, harity, hbounds, rfl⟩
      · intro h
        obtain ⟨_, ⟨⟩, harity, hbounds, rfl⟩ := h
        exact ⟨harity, hbounds, rfl⟩

/-- Where a call of a trait method leads: to the method of an impl, or to its own body. -/
theorem dispatch_eq_ok {fn : FnDecl} {traitDef : DefId} {args : List Ty} {i : Instance} :
    env.dispatch fn traitDef args = .ok i ↔ ∃ selfTy rest, args = selfTy :: rest ∧
      ((∃ impl target, env.implMethod? traitDef selfTy fn.defId.name = some (impl, target) ∧
          env.resolveInImpl impl target rest = .ok i) ∨
        env.implMethod? traitDef selfTy fn.defId.name = none ∧ fn.body.isSome = true ∧
          i = ⟨fn.defId, args⟩) := by
  unfold dispatch
  cases args with
  | nil =>
      constructor
      · intro herror
        cases herror
      · intro h
        obtain ⟨_, _, ⟨⟩, _⟩ := h
  | cons selfTy rest =>
      dsimp only
      cases himpl : env.implMethod? traitDef selfTy fn.defId.name with
      | some found =>
          constructor
          · exact fun h => ⟨selfTy, rest, rfl, Or.inl ⟨found.1, found.2, himpl, h⟩⟩
          · intro h
            obtain ⟨_, _, ⟨⟩, ⟨impl, target, hfound, h⟩ | ⟨hnone, -⟩⟩ := h
            · rw [himpl] at hfound
              cases hfound
              exact h
            · rw [himpl] at hnone
              cases hnone
      | none =>
          dsimp only
          constructor
          · intro h
            by_cases hbody : fn.body.isSome = true
            · rw [if_pos hbody] at h
              cases h
              exact ⟨selfTy, rest, rfl, Or.inr ⟨himpl, hbody, rfl⟩⟩
            · rw [if_neg hbody] at h
              cases h
          · intro h
            obtain ⟨_, _, ⟨⟩, ⟨impl, target, hfound, _⟩ | ⟨_, hbody, rfl⟩⟩ := h
            · rw [himpl] at hfound
              cases hfound
            · exact if_pos hbody

/-- When a function can be instantiated, and how. -/
theorem resolve_eq_ok {id : DefId} {args : List Ty} {i : Instance} :
    env.resolve id args = .ok i ↔ ∃ fn, env.fnDecl id = some fn ∧
      args.length = fn.generics.length ∧ (∀ arg ∈ args, arg.hasParam = false) ∧
      env.checkBounds fn args = .ok () ∧
      (fn.traitDef = none ∧ i = ⟨id, args⟩ ∨
        ∃ traitDef, fn.traitDef = some traitDef ∧ env.dispatch fn traitDef args = .ok i) := by
  unfold resolve
  cases hfn : env.fnDecl id with
  | none =>
      constructor
      · intro herror
        cases herror
      · intro h
        obtain ⟨_, ⟨⟩, _⟩ := h
  | some fn =>
      simp only [Outcome.check_bind_eq_ok, check_arity_eq_ok, check_concrete_eq_ok]
      cases htrait : fn.traitDef with
      | none =>
          constructor
          · intro h
            obtain ⟨harity, hconcrete, hbounds, h⟩ := h
            exact ⟨fn, rfl, harity, hconcrete, hbounds, Or.inl ⟨htrait, (Except.ok.inj h).symm⟩⟩
          · intro h
            obtain ⟨_, ⟨⟩, harity, hconcrete, hbounds, ⟨_, rfl⟩ | ⟨_, hsome, _⟩⟩ := h
            · exact ⟨harity, hconcrete, hbounds, rfl⟩
            · rw [htrait] at hsome
              cases hsome
      | some traitDef =>
          constructor
          · intro h
            obtain ⟨harity, hconcrete, hbounds, h⟩ := h
            exact ⟨fn, rfl, harity, hconcrete, hbounds, Or.inr ⟨traitDef, htrait, h⟩⟩
          · intro h
            obtain ⟨_, ⟨⟩, harity, hconcrete, hbounds, ⟨hnone, _⟩ | ⟨_, hsome, h⟩⟩ := h
            · rw [htrait] at hnone
              cases hnone
            · rw [htrait] at hsome
              cases hsome
              exact ⟨harity, hconcrete, hbounds, h⟩

/-- What resolution gives: what was asked for, if that stands alone or has a body of its own, or else
the method of an impl with the arguments behind `Self`. -/
theorem resolve_cases (hid : ∀ {id fn}, env.fnDecl id = some fn → fn.defId = id) {id : DefId}
    {args : List Ty} {i : Instance} (h : env.resolve id args = .ok i) :
    ∃ fn, env.fnDecl i.defId = some fn ∧ i.args.length = fn.generics.length ∧
      env.checkBounds fn i.args = .ok () ∧
      (i = ⟨id, args⟩ ∧ (fn.traitDef = none ∨ fn.body.isSome = true) ∨
        ∃ traitDef selfTy method impl, args = selfTy :: i.args ∧
          env.implMethod? traitDef selfTy method = some (impl, i.defId)) := by
  obtain ⟨fn, hfn, harity, -, hbounds, ⟨htrait, rfl⟩ | ⟨traitDef, -, hdispatch⟩⟩ :=
    resolve_eq_ok.mp h
  · exact ⟨fn, hfn, harity, hbounds, Or.inl ⟨rfl, Or.inl htrait⟩⟩
  · obtain ⟨selfTy, rest, rfl, ⟨impl, target, hfound, himpl⟩ | ⟨-, hbody, rfl⟩⟩ :=
      dispatch_eq_ok.mp hdispatch
    · obtain ⟨method, hmethod, hlength, hmet, rfl⟩ := resolve_in_impl_eq_ok.mp himpl
      exact ⟨method, hmethod, hlength, hmet, Or.inr ⟨traitDef, selfTy, _, impl, rfl, hfound⟩⟩
    · obtain rfl := hid hfn
      exact ⟨fn, hfn, harity, hbounds, Or.inl ⟨rfl, Or.inr hbody⟩⟩

/-- A resolved instance is of a known function and has an argument for each of its parameters. -/
theorem resolve_arity {id : DefId} {args : List Ty} {i : Instance} (henv : env.Coherent)
    (h : env.resolve id args = .ok i) :
    ∃ fn, env.fnDecl i.defId = some fn ∧ i.args.length = fn.generics.length := by
  obtain ⟨fn, hfn, harity, -⟩ := resolve_cases henv.def_id h
  exact ⟨fn, hfn, harity⟩

/-- A resolved instance has the last of the arguments, without `Self` if an impl was found. -/
theorem resolve_args_suffix {id : DefId} {args : List Ty} {i : Instance}
    (h : env.resolve id args = .ok i) : i.args <:+ args := by
  obtain ⟨fn, -, -, -, -, ⟨-, rfl⟩ | ⟨traitDef, -, hdispatch⟩⟩ := resolve_eq_ok.mp h
  · exact List.suffix_refl args
  · obtain ⟨selfTy, rest, rfl, ⟨impl, target, -, himpl⟩ | ⟨-, -, rfl⟩⟩ :=
      dispatch_eq_ok.mp hdispatch
    · obtain ⟨method, -, -, -, rfl⟩ := resolve_in_impl_eq_ok.mp himpl
      exact List.suffix_cons selfTy rest
    · exact List.suffix_refl _

/-- The arguments of a resolved instance hold no parameter. -/
theorem resolve_concrete {id : DefId} {args : List Ty} {i : Instance}
    (h : env.resolve id args = .ok i) : ∀ arg ∈ i.args, arg.hasParam = false := by
  obtain ⟨fn, -, -, hconcrete, -⟩ := resolve_eq_ok.mp h
  exact fun arg harg => hconcrete arg ((resolve_args_suffix h).subset harg)

/-- Resolving a resolved instance gives the instance. -/
theorem resolve_resolved {id : DefId} {args : List Ty} {i : Instance} (henv : env.Coherent)
    (h : env.resolve id args = .ok i) : env.resolve i.defId i.args = .ok i := by
  obtain ⟨fn, hfn, harity, hbounds, ⟨rfl, -⟩ | ⟨_, _, _, _, -, himpl⟩⟩ :=
    resolve_cases henv.def_id h
  · exact h
  · -- the method of an impl stands alone
    have htrait := henv.impl_fn himpl hfn
    exact resolve_eq_ok.mpr ⟨fn, hfn, harity, resolve_concrete h, hbounds, Or.inl ⟨htrait, rfl⟩⟩

/-- Resolving a resolved instance always gives the instance. -/
def Idempotent (env : Environment) : Prop :=
  ∀ {id args i}, env.resolve id args = .ok i → env.resolve i.defId i.args = .ok i

theorem Coherent.idempotent (henv : env.Coherent) : env.Idempotent :=
  fun h => env.resolve_resolved henv h

/-! ## Failures -/

theorem check_arity_plain {fn : FnDecl} {args : List Ty} {fault : ResolutionFault}
    (h : checkArity fn args = .error fault) : fault.Plain := by
  unfold checkArity at h
  split at h <;> cases h
  trivial

theorem check_concrete_eq_error {fn : DefId} {args : List Ty} {fault : ResolutionFault}
    (h : checkConcrete fn args = .error fault) :
    ∃ arg ∈ args, arg.hasParam = true ∧ fault = .tooGeneric fn arg := by
  unfold checkConcrete at h
  split at h
  next => cases h
  next arg hfind =>
    cases h
    exact ⟨arg, List.mem_of_find?_eq_some hfind, List.find?_some hfind, rfl⟩

theorem check_bounds_plain {fn : FnDecl} {args : List Ty} {fault : ResolutionFault}
    (h : env.checkBounds fn args = .error fault) : fault.Plain := by
  unfold checkBounds at h
  dsimp only at h
  split at h <;> cases h
  trivial

/-- Why a method of an impl cannot be instantiated: it is not declared, or its arguments do not fit
it. -/
theorem resolve_in_impl_error_cases {impl : TraitImpl} {target : DefId} {rest : List Ty}
    {fault : ResolutionFault} (h : env.resolveInImpl impl target rest = .error fault) :
    (env.fnDecl target = none ∧ fault = .missingFn impl.defId target) ∨
      ∃ fn, env.fnDecl target = some fn ∧
        (checkArity fn rest = .error fault ∨ env.checkBounds fn rest = .error fault) := by
  unfold resolveInImpl at h
  cases hfn : env.fnDecl target with
  | none =>
      rw [hfn] at h
      cases h
      exact Or.inl ⟨rfl, rfl⟩
  | some fn =>
      rw [hfn] at h
      refine Or.inr ⟨fn, rfl, ?_⟩
      rcases Outcome.check_bind_eq_error.mp h with h | ⟨-, h⟩
      · exact Or.inl h
      rcases Outcome.check_bind_eq_error.mp h with h | ⟨-, h⟩
      · exact Or.inr h
      · cases h

/-- Why a method cannot be dispatched: there is no `Self`, or no impl for it and no body, or the
method of the impl cannot be instantiated. -/
theorem dispatch_error_cases {fn : FnDecl} {traitDef : DefId} {args : List Ty}
    {fault : ResolutionFault} (h : env.dispatch fn traitDef args = .error fault) :
    (args = [] ∧ fault = .noSelf) ∨ ∃ selfTy rest, args = selfTy :: rest ∧
      (fault = .missingImpl fn.defId selfTy ∨
        ∃ impl target, env.implMethod? traitDef selfTy fn.defId.name = some (impl, target) ∧
          env.resolveInImpl impl target rest = .error fault) := by
  unfold dispatch at h
  cases args with
  | nil =>
      cases h
      exact Or.inl ⟨rfl, rfl⟩
  | cons selfTy rest =>
      refine Or.inr ⟨selfTy, rest, rfl, ?_⟩
      dsimp only at h
      split at h
      next impl target hmethod => exact Or.inr ⟨impl, target, hmethod, h⟩
      next =>
        split at h <;> cases h
        exact Or.inl rfl

/-- Why a function cannot be resolved: it is not declared, its arguments do not fit it, or it is a
trait method that cannot be dispatched. -/
theorem resolve_error_cases {id : DefId} {args : List Ty} {fault : ResolutionFault}
    (h : env.resolve id args = .error fault) :
    (env.fnDecl id = none ∧ fault = .unknownFn id) ∨ ∃ fn, env.fnDecl id = some fn ∧
      (checkArity fn args = .error fault ∨ checkConcrete id args = .error fault ∨
        env.checkBounds fn args = .error fault ∨
        args.length = fn.generics.length ∧ ∃ traitDef, fn.traitDef = some traitDef ∧
          env.dispatch fn traitDef args = .error fault) := by
  unfold resolve at h
  cases hfn : env.fnDecl id with
  | none =>
      rw [hfn] at h
      cases h
      exact Or.inl ⟨rfl, rfl⟩
  | some fn =>
      rw [hfn] at h
      refine Or.inr ⟨fn, rfl, ?_⟩
      rcases Outcome.check_bind_eq_error.mp h with h | ⟨harity, h⟩
      · exact Or.inl h
      rcases Outcome.check_bind_eq_error.mp h with h | ⟨-, h⟩
      · exact Or.inr (Or.inl h)
      rcases Outcome.check_bind_eq_error.mp h with h | ⟨-, h⟩
      · exact Or.inr (Or.inr (Or.inl h))
      cases htrait : fn.traitDef with
      | none =>
          rw [htrait] at h
          cases h
      | some traitDef =>
          rw [htrait] at h
          exact Or.inr (Or.inr (Or.inr ⟨check_arity_eq_ok.mp harity, traitDef, rfl, h⟩))

theorem dispatch_plain {fn : FnDecl} {traitDef : DefId} {args : List Ty} {fault : ResolutionFault}
    (hargs : args ≠ []) (h : env.dispatch fn traitDef args = .error fault) : fault.Plain := by
  obtain ⟨hnil, -⟩ | ⟨selfTy, rest, -, rfl | ⟨impl, target, -, himpl⟩⟩ := dispatch_error_cases h
  · exact absurd hnil hargs
  · trivial
  · obtain ⟨-, rfl⟩ | ⟨method, -, h | h⟩ := resolve_in_impl_error_cases himpl
    · trivial
    · exact check_arity_plain h
    · exact check_bounds_plain h

/-- How resolution fails: by a lookup or a count, at an argument that holds a parameter, or at a
trait method that is to be dispatched without an argument. -/
theorem resolve_eq_error {id : DefId} {args : List Ty} {fault : ResolutionFault}
    (h : env.resolve id args = .error fault) :
    fault.Plain ∨ (∃ arg ∈ args, arg.hasParam = true ∧ fault = .tooGeneric id arg) ∨
      ∃ fn, env.fnDecl id = some fn ∧ fn.traitDef.isSome = true ∧ fn.generics = [] := by
  obtain ⟨-, rfl⟩ | ⟨fn, hfn, h | h | h | ⟨hlength, traitDef, htrait, h⟩⟩ := resolve_error_cases h
  · exact Or.inl trivial
  · exact Or.inl (check_arity_plain h)
  · exact Or.inr (Or.inl (check_concrete_eq_error h))
  · exact Or.inl (check_bounds_plain h)
  · by_cases hnil : args = []
    · rw [hnil] at hlength
      refine Or.inr (Or.inr ⟨fn, hfn, by rw [htrait]; rfl, ?_⟩)
      exact List.eq_nil_of_length_eq_zero hlength.symm
    · exact Or.inl (dispatch_plain hnil h)

/-- Where every trait method has a parameter, `Self` is never missing. -/
theorem resolve_ne_no_self {id : DefId} {args : List Ty}
    (hself : ∀ {fn}, env.fnDecl id = some fn → fn.traitDef.isSome = true → fn.generics ≠ []) :
    env.resolve id args ≠ .error .noSelf := by
  intro h
  rcases resolve_eq_error h with h | ⟨_, -, -, h⟩ | ⟨fn, hfn, htrait, hnil⟩
  · exact h
  · cases h
  · exact hself hfn htrait hnil

/-- Concrete arguments are never too generic, where every trait method has a parameter. -/
theorem plain_of_concrete {id : DefId} {args : List Ty} {fault : ResolutionFault}
    (hself : ∀ {fn}, env.fnDecl id = some fn → fn.traitDef.isSome = true → fn.generics ≠ [])
    (hconcrete : ∀ arg ∈ args, arg.hasParam = false) (h : env.resolve id args = .error fault) :
    fault.Plain := by
  rcases resolve_eq_error h with h | ⟨arg, harg, hparam, -⟩ | ⟨fn, hfn, htrait, hnil⟩
  · exact h
  · rw [hconcrete arg harg] at hparam
    cases hparam
  · exact absurd hnil (hself hfn htrait)

end Environment

/-- A failure to resolve is a finding, unless `Self` is missing. -/
theorem ResolutionFault.to_fault_of_ne {fault : ResolutionFault} (h : fault ≠ .noSelf) :
    fault.toFault = .check { kind := .resolution, message := fault.message } := by
  cases fault with
  | noSelf => exact absurd rfl h
  | unknownFn | arity | tooGeneric | unmetBound | missingFn | missingImpl => rfl

/-- A failure to resolve is never a setup fault. -/
theorem ResolutionFault.to_fault_ne_setup (fault : ResolutionFault) (message : String) :
    fault.toFault ≠ .setup message := by
  cases fault <;> nofun

/-! ## Bodies of instances -/

namespace Program

variable {p : Program} {i : Instance}

/-- The body of an instance with an argument for each parameter: that of its function with the
arguments put in, unless the function is extern. -/
theorem body_of_eq {fn : FnDecl} (hfn : p.fnDecl i.defId = some fn)
    (harity : i.args.length = fn.generics.length) :
    p.bodyOf i = .ok (if fn.isExtern then none
      else fn.body.map (Body.subst ⟨fn.paramNames.zip i.args⟩)) := by
  have hlength : fn.paramNames.length = i.args.length := by
    rw [FnDecl.paramNames, List.length_map, harity]
  have hsubst : Subst.of fn.paramNames i.args = .ok ⟨fn.paramNames.zip i.args⟩ := if_pos hlength
  unfold bodyOf
  rw [hfn]
  dsimp only
  rw [hsubst]
  split
  next => rfl
  next => cases fn.body <;> rfl

/-- When an instance has a body: its function has one, and takes as many arguments. -/
theorem body_of_eq_some {body : Body} : p.bodyOf i = .ok (some body) ↔
    ∃ fn generic, p.fnDecl i.defId = some fn ∧ fn.isExtern = false ∧ fn.body = some generic ∧
      fn.paramNames.length = i.args.length ∧
      body = generic.subst ⟨fn.paramNames.zip i.args⟩ := by
  unfold bodyOf
  cases hfn : p.fnDecl i.defId with
  | none => simp
  | some fn =>
      cases hlocal : fn.isExtern with
      | true =>
          simp only [hlocal, if_true, Option.some.injEq]
          constructor
          · intro h
            cases h
          · intro h
            obtain ⟨_, _, rfl, hfalse, _⟩ := h
            rw [hlocal] at hfalse
            cases hfalse
      | false =>
          cases hbody : fn.body with
          | none => simp [hlocal, hbody]
          | some generic =>
              by_cases hlength : fn.paramNames.length = i.args.length
              · have hof : Subst.of fn.paramNames i.args = .ok ⟨fn.paramNames.zip i.args⟩ :=
                  if_pos hlength
                simp only [hlocal, hbody, hof, Bool.false_eq_true, if_false, Except.ok.injEq,
                  Option.some.injEq]
                constructor
                · rintro rfl
                  exact ⟨fn, generic, rfl, hlocal, hbody, hlength, rfl⟩
                · intro h
                  obtain ⟨_, _, rfl, -, hsome, -, rfl⟩ := h
                  rw [hbody] at hsome
                  cases hsome
                  rfl
              · simp [hlocal, hbody, Subst.of, hlength]

end Program

end MirAudit
