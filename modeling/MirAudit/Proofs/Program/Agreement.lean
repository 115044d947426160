import MirAudit.Proofs.Program.Interning
import MirAudit.Proofs.Program.Registrations

/-!
# Programs that agree up to spans

Resolution and bodies do not look at spans. So two programs whose functions and impls agree up to
spans give the same answers, see `Program.SameUpToSpans`.
-/

namespace MirAudit

/-! ## Lookups without spans -/

namespace Environment

/-- The lookups without spans. -/
def withoutSpans (env : Environment) : Environment where
  fnDecl id := (env.fnDecl id).map FnDecl.withoutSpan
  findImpl traitDef selfTy := (env.findImpl traitDef selfTy).map TraitImpl.unspanned

variable (env : Environment)

theorem fn_decl_without_spans (id : DefId) :
    env.withoutSpans.fnDecl id = (env.fnDecl id).map FnDecl.withoutSpan := rfl

theorem check_bounds_without_spans (fn : FnDecl) (args : List Ty) :
    env.withoutSpans.checkBounds fn.withoutSpan args = env.checkBounds fn args := by
  unfold checkBounds withoutSpans
  simp only [Option.isNone_map]
  rfl

theorem resolve_in_impl_without_spans (impl : TraitImpl) (target : DefId) (rest : List Ty) :
    env.withoutSpans.resolveInImpl impl.unspanned target rest =
      env.resolveInImpl impl target rest := by
  unfold resolveInImpl
  rw [fn_decl_without_spans]
  cases env.fnDecl target with
  | none => rfl
  | some fn =>
      simp only [Option.map_some, check_bounds_without_spans]
      rfl

theorem impl_method_without_spans (traitDef : DefId) (selfTy : Ty) (method : String) :
    env.withoutSpans.implMethod? traitDef selfTy method =
      (env.implMethod? traitDef selfTy method).map (Prod.map TraitImpl.unspanned id) := by
  unfold implMethod?
  show ((env.findImpl traitDef selfTy).map TraitImpl.unspanned).bind _ = _
  cases env.findImpl traitDef selfTy with
  | none => rfl
  | some impl =>
      show (impl.method? method).bind _ = ((impl.method? method).bind _).map _
      cases impl.method? method <;> rfl

theorem dispatch_without_spans (fn : FnDecl) (traitDef : DefId) (args : List Ty) :
    env.withoutSpans.dispatch fn.withoutSpan traitDef args = env.dispatch fn traitDef args := by
  cases args with
  | nil => rfl
  | cons selfTy rest =>
      have himpl := env.impl_method_without_spans traitDef selfTy fn.defId.name
      unfold dispatch
      dsimp only [FnDecl.withoutSpan]
      cases hfound : env.implMethod? traitDef selfTy fn.defId.name with
      | none =>
          rw [hfound] at himpl
          rw [himpl]
          rfl
      | some found =>
          rw [hfound] at himpl
          rw [himpl]
          exact env.resolve_in_impl_without_spans found.1 found.2 rest

/-- Resolution does not look at spans. -/
theorem resolve_without_spans (id : DefId) (args : List Ty) :
    env.withoutSpans.resolve id args = env.resolve id args := by
  unfold resolve
  rw [fn_decl_without_spans]
  cases env.fnDecl id with
  | none => rfl
  | some fn =>
      simp only [Option.map_some, check_bounds_without_spans, dispatch_without_spans]
      rfl

end Environment

namespace Program

variable {p q : Program}

/-! ## Programs that agree up to spans -/

/-- The two programs have the same functions, impls and entry point up to spans. -/
structure SameUpToSpans (p q : Program) : Prop where
  fnDecl : ∀ id, (q.fnDecl id).map FnDecl.withoutSpan = (p.fnDecl id).map FnDecl.withoutSpan
  findImpl : ∀ traitDef selfTy, (q.findImpl traitDef selfTy).map TraitImpl.unspanned =
    (p.findImpl traitDef selfTy).map TraitImpl.unspanned
  entry : q.entry.map Item.defId = p.entry.map Item.defId

/-- Programs that were filled with the same registrations, in any order, agree up to spans. -/
theorem Holds.same_up_to_spans {crate : String} {rs rs' : List Registration}
    (hp : p.Holds crate rs) (hq : q.Holds crate rs')
    (hperm : (rs.map Registration.withoutSpans).Perm (rs'.map Registration.withoutSpans)) :
    p.SameUpToSpans q where
  fnDecl id := by
    refine Option.ext fun fn => ?_
    rw [hp.map_fn_decl_eq_some, hq.map_fn_decl_eq_some, (hperm.filterMap _).mem_iff]
  findImpl traitDef selfTy := by
    refine Option.ext fun impl => ?_
    rw [hp.map_find_impl_eq_some, hq.map_find_impl_eq_some, (hperm.filterMap _).mem_iff]
  entry := by
    refine Option.ext fun id => ?_
    simp only [hp.map_entry_eq_some, hq.map_entry_eq_some, (hperm.filterMap _).mem_iff]

namespace SameUpToSpans

theorem trans {r : Program} (h : p.SameUpToSpans q) (h' : q.SameUpToSpans r) :
    p.SameUpToSpans r where
  fnDecl id := (h'.fnDecl id).trans (h.fnDecl id)
  findImpl traitDef selfTy := (h'.findImpl traitDef selfTy).trans (h.findImpl traitDef selfTy)
  entry := h'.entry.trans h.entry

/-- Both programs have the same body for a function. -/
theorem fn_body (h : p.SameUpToSpans q) (id : DefId) :
    (q.fnDecl id).bind FnDecl.body = (p.fnDecl id).bind FnDecl.body := by
  have hbody (r : Program) : (r.fnDecl id).bind FnDecl.body =
      ((r.fnDecl id).map FnDecl.withoutSpan).bind FnDecl.body := by
    cases r.fnDecl id <;> rfl
  rw [hbody q, h.fnDecl, ← hbody p]

/-- Both programs resolve a function to the same instance, or fail in the same way. -/
theorem resolve (h : p.SameUpToSpans q) (id : DefId) (args : List Ty) :
    q.environment.resolve id args = p.environment.resolve id args := by
  have henv : q.environment.withoutSpans = p.environment.withoutSpans := by
    unfold environment Environment.withoutSpans
    simp only [h.fnDecl, h.findImpl]
  rw [← Environment.resolve_without_spans, henv, Environment.resolve_without_spans]

/-- Both programs give the same bodies. -/
theorem body_of (h : p.SameUpToSpans q) (i : Instance) : q.bodyOf i = p.bodyOf i := by
  have hsame := h.fnDecl i.defId
  unfold Program.bodyOf
  cases hq : q.fnDecl i.defId with
  | none =>
      rw [hq, Option.map_none, eq_comm, Option.map_eq_none_iff] at hsame
      rw [hsame]
  | some fn =>
      rw [hq, Option.map_some, eq_comm, Option.map_eq_some_iff] at hsame
      obtain ⟨fn', hp, hfn⟩ := hsame
      rw [hp]
      have hbody : fn'.body = fn.body := (congrArg FnDecl.body hfn :)
      have hextern : fn'.isExtern = fn.isExtern := (congrArg FnDecl.isExtern hfn :)
      have hnames : fn'.paramNames = fn.paramNames := (congrArg FnDecl.paramNames hfn :)
      simp only [hbody, hextern, hnames]

/-! ### Interning -/

variable {r s : Program} (h : p.SameUpToSpans q) (hr : p.InternedFrom r) (hs : q.InternedFrom s)
include h hr hs

theorem interned : r.SameUpToSpans s := by
  rw [hr.same, hs.same]
  exact ⟨h.fnDecl, h.findImpl, h.entry⟩

/-- What was interned in either program does not show. -/
theorem resolve_interned (hp : p.environment.Coherent) (hq : q.environment.Coherent) (id : DefId)
    (args : List Ty) : (s.resolve id args).1 = (r.resolve id args).1 := by
  rw [(hs.resolve hq.idempotent id args).1, (hr.resolve hp.idempotent id args).1, oracle, oracle]
  exact congrArg (Except.mapError ResolutionFault.toFault) (h.resolve id args)

end SameUpToSpans

end Program

end MirAudit
