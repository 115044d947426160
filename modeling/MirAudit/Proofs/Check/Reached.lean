import MirAudit.Proofs.Body.Fits
import MirAudit.Proofs.Body.Types
import MirAudit.Proofs.Check.Roots
import MirAudit.Proofs.Discovery.Closure

/-!
# What an audit reaches

The search of an audit runs over the edges of the oracle of the program. Every instance that it
reaches has an argument for each parameter of its function, and its body can be walked. So the
findings of the search are about calls that cannot be followed: `Loaded.findings_iff`.
-/

namespace MirAudit

/-! ## Calls that cannot be followed -/

namespace Oracle

variable {o : Oracle} {i : Instance}

/-- The body of `i` calls an operand that is neither a function item nor a function pointer, or a
function item that cannot be resolved. -/
def HasBrokenCall (o : Oracle) (i : Instance) : Prop :=
  ∃ body, o.bodyOf i = .ok (some body) ∧
    ∃ block ∈ body.blocks, ∃ func args dest target ty,
      block.terminator = .call func args dest target ∧ func.ty body.locals = .ok ty ∧
      (((∀ fn tys, ty ≠ .fnDef fn tys) ∧ ∀ inputs output, ty ≠ .fnPtr inputs output) ∨
        ∃ fn tys fault, ty = .fnDef fn tys ∧ o.resolve fn tys = .error (.check fault) ∧
          fault.kind = .resolution)

/-- A target that is found is an instance or a function pointer. -/
theorem target_eq_ok {locals : List LocalDecl} {func : Operand} {edge : Edge} :
    o.target locals func = .ok edge ↔
      (∃ fn tys callee, func.ty locals = .ok (.fnDef fn tys) ∧ o.resolve fn tys = .ok callee ∧
        .direct callee = edge) ∨
      ∃ inputs output, func.ty locals = .ok (.fnPtr inputs output) ∧ .indirect = edge := by
  unfold target Operand.callee
  cases func.ty locals with
  | error crash => simp
  | ok ty =>
      cases ty with
      | fnDef fn tys =>
          show (o.resolve fn tys).map Edge.direct = .ok edge ↔ _
          cases hresolve : o.resolve fn tys with
          | error fault => simp [Except.map, hresolve]
          | ok callee => simp [Except.map, hresolve]
      | fnPtr inputs output => simp [Callee.ofTy]
      | scalar | adt | ref | tuple | param => simp [Callee.ofTy]

theorem fault_of_target {locals : List LocalDecl} {func : Operand} {edge : Edge}
    (h : o.target locals func = .ok edge) : edge.fault? = none := by
  obtain ⟨-, -, -, -, -, rfl⟩ | ⟨-, -, -, rfl⟩ := target_eq_ok.mp h
  · rfl
  · rfl

/-- A call becomes a finding exactly if its target cannot be found. -/
theorem fault_follow_eq_some {locals : List LocalDecl} {site : CallSite} {finding : CheckFault} :
    (o.follow i locals site).fault? = some finding ↔
      ∃ fault, o.target locals site.func = .error fault ∧
        fault.finding.located i.name (some site.block) = finding := by
  unfold follow
  cases htarget : o.target locals site.func with
  | error fault => simp [Edge.fault?]
  | ok edge => simp [fault_of_target htarget]

theorem is_some_fault_follow {locals : List LocalDecl} {site : CallSite} :
    (o.follow i locals site).fault?.isSome = true ↔
      ∃ fault, o.target locals site.func = .error fault := by
  simp [Option.isSome_iff_exists, fault_follow_eq_some]

/-- Why the target of an operand cannot be found: its type is not that of a callee, or it cannot be
resolved. -/
theorem target_eq_error {locals : List LocalDecl} {func : Operand} {ty : Ty} {fault : Fault}
    (hty : func.ty locals = .ok ty) :
    o.target locals func = .error fault ↔
      (((∀ fn tys, ty ≠ .fnDef fn tys) ∧ ∀ inputs output, ty ≠ .fnPtr inputs output) ∧
        .check (unexpectedCallee ty) = fault) ∨
      ∃ fn tys, ty = .fnDef fn tys ∧ o.resolve fn tys = .error fault := by
  unfold target Operand.callee
  rw [hty]
  cases ty with
  | fnDef fn tys =>
      show (o.resolve fn tys).map Edge.direct = .error fault ↔ _
      cases hresolve : o.resolve fn tys with
      | error cause => simp [Except.map, hresolve]
      | ok j => simp [Except.map, hresolve]
  | fnPtr inputs output => simp [Callee.ofTy]
  | scalar | adt | ref | tuple | param => simp [Callee.ofTy]

/-- Why the target of a call in a body that fits cannot be found. The type of the operand stands in
the body. -/
theorem target_error_of_site {body : Body} (hfits : body.Fits) {site : CallSite}
    (hsite : site ∈ body.callSites) {fault : Fault}
    (h : o.target body.locals site.func = .error fault) :
    ∃ ty ∈ body.types, .check (unexpectedCallee ty) = fault ∨
      ∃ fn tys, ty = .fnDef fn tys ∧ o.resolve fn tys = .error fault := by
  obtain ⟨block, hblock, args, dest, target, hcall⟩ := Body.mem_callSites.mp hsite
  have hblocks := List.mem_of_getElem? hblock
  obtain ⟨ty, hty⟩ := hfits.callee_ty hblocks hcall
  refine ⟨ty, Body.callee_ty_mem_types hblocks hcall hty, ?_⟩
  exact ((target_eq_error hty).mp h).imp_left And.right

end Oracle

namespace Source.Loaded

variable {l : Loader} {items : List (Spanned ItemTree)} {p : Program} {i : Instance}

/-- Everything that can be reached is what some function is resolved to. -/
theorem resolved_of_reaches (hp : Loaded l items p) (h : p.oracle.Reaches p.auditRoots i) :
    ∃ id args, p.environment.resolve id args = .ok i := by
  obtain ⟨root, hroot, hpath⟩ := h
  cases hpath with
  | refl =>
      obtain ⟨item, -, -, ⟨fn, hfn, hplain⟩, rfl⟩ :=
        (Program.mem_audit_roots hp.registered).mp hroot
      exact ⟨item.defId, [], hp.resolve_plain hfn hplain⟩
  | tail _ hcall =>
      obtain ⟨_, _, _, _, _, _, _, _, _, fn, tys, _, _, hresolve⟩ := hcall
      exact ⟨fn, tys, Program.oracle_resolve_eq_ok.mp hresolve⟩

/-- Everything that can be reached is an instance of a function of the program. -/
theorem arity_of_reaches (hp : Loaded l items p) (h : p.oracle.Reaches p.auditRoots i) :
    ∃ fn, p.fnDecl i.defId = some fn ∧ i.args.length = fn.generics.length := by
  obtain ⟨id, args, hresolve⟩ := hp.resolved_of_reaches h
  exact Environment.resolve_arity hp.coherent hresolve

/-- A search from the roots is a search over the edges of the oracle. -/
theorem discover_outcome (hp : Loaded l items p) {q : Program} (hq : p.InternedFrom q)
    (fuel : Nat) : ∃ next, p.InternedFrom next ∧
      (Program.model.discover fuel p.auditRoots).outcome q =
        (match (Discovery.start p.auditRoots).search p.oracle.edges fuel with
          | some d => .ok d
          | none => .error .outOfFuel, next) :=
  (Program.answers_from_oracle hp.coherent).explore p.oracle_never_fatal fuel
    (.start p.auditRoots) hq

/-- The body of an instance that is reached fits its declarations, if there is one. -/
theorem body_of_reaches (hp : Loaded l items p) (h : p.oracle.Reaches p.auditRoots i) :
    p.bodyOf i = .ok none ∨ ∃ body, p.bodyOf i = .ok (some body) ∧ body.Fits := by
  obtain ⟨fn, hfn, harity⟩ := hp.arity_of_reaches h
  rw [Program.body_of_eq hfn harity]
  cases fn.isExtern with
  | true => exact Or.inl rfl
  | false =>
      cases hbody : fn.body with
      | none => exact Or.inl rfl
      | some generic => exact Or.inr ⟨_, rfl, (hp.fits hfn hbody).subst⟩

/-- A call that cannot be resolved is a finding about resolution. -/
theorem resolve_error (hp : Loaded l items p) {id : DefId} {args : List Ty} {fault : Fault}
    (h : p.oracle.resolve id args = .error fault) :
    ∃ finding, fault = .check finding ∧ finding.kind = .resolution := by
  obtain ⟨cause, hcause, rfl⟩ := Program.oracle_resolve_eq_error.mp h
  exact ⟨_, hp.resolution_fault hcause, rfl⟩

/-- A finding about an instance that is reached is about a call in its body. -/
theorem call_of_finding (hp : Loaded l items p) (h : p.oracle.Reaches p.auditRoots i)
    {finding : CheckFault} (hfinding : finding ∈ (p.oracle.edges i).filterMap Edge.fault?) :
    ∃ body site fault, p.bodyOf i = .ok (some body) ∧ body.Fits ∧ site ∈ body.callSites ∧
      p.oracle.target body.locals site.func = .error fault ∧
      fault.finding.located i.name (some site.block) = finding := by
  obtain ⟨edge, hedge, hfault⟩ := List.mem_filterMap.mp hfinding
  unfold Oracle.edges Oracle.callSites at hedge
  rcases hp.body_of_reaches h with hbody | ⟨body, hbody, hfits⟩
  · rw [show p.oracle.bodyOf i = _ from hbody] at hedge
    exact absurd hedge List.not_mem_nil
  · rw [show p.oracle.bodyOf i = _ from hbody] at hedge
    dsimp only at hedge
    rw [Body.calls_eq hfits.walk] at hedge
    obtain ⟨site, hsite, rfl⟩ := List.mem_map.mp hedge
    obtain ⟨fault, htarget, hplace⟩ := Oracle.fault_follow_eq_some.mp hfault
    exact ⟨body, site, fault, hbody, hfits, hsite, htarget, hplace⟩

/-- There are findings about an instance that is reached exactly if it has a broken call. -/
theorem findings_iff (hp : Loaded l items p) (h : p.oracle.Reaches p.auditRoots i) :
    (∃ edge ∈ p.oracle.edges i, edge.fault?.isSome = true) ↔ p.oracle.HasBrokenCall i := by
  unfold Oracle.edges Oracle.callSites Oracle.HasBrokenCall
  rcases hp.body_of_reaches h with hbody | ⟨body, hbody, hfits⟩
  · simp [show p.oracle.bodyOf i = _ from hbody]
  · -- the body can be walked, so that its call sites are all of its calls
    simp only [show p.oracle.bodyOf i = _ from hbody, Body.calls_eq hfits.walk, List.mem_map,
      exists_exists_and_eq_and, Oracle.is_some_fault_follow, Except.ok.injEq, Option.some.injEq,
      exists_eq_left']
    constructor
    · intro h
      obtain ⟨site, hsite, hfails⟩ := h
      obtain ⟨block, hblock, args, dest, target, hcall⟩ := Body.mem_callSites.mp hsite
      have hblocks := List.mem_of_getElem? hblock
      obtain ⟨ty, hty⟩ := hfits.callee_ty hblocks hcall
      refine ⟨block, hblocks, site.func, args, dest, target, ty, hcall, hty, ?_⟩
      obtain ⟨fault, hfails⟩ := hfails
      rcases (Oracle.target_eq_error hty).mp hfails with ⟨hother, -⟩ | ⟨fn, tys, rfl, hresolve⟩
      · exact Or.inl hother
      · obtain ⟨finding, rfl, hkind⟩ := hp.resolve_error hresolve
        exact Or.inr ⟨fn, tys, finding, rfl, hresolve, hkind⟩
    · intro h
      obtain ⟨block, hblock, func, args, dest, target, ty, hcall, hty, hbroken⟩ := h
      obtain ⟨index, hindex⟩ := List.mem_iff_getElem?.mp hblock
      refine ⟨⟨index, func⟩, Body.mem_callSites.mpr ⟨block, hindex, args, dest, target, hcall⟩, ?_⟩
      rcases hbroken with hother | ⟨fn, tys, finding, rfl, hresolve, -⟩
      · exact ⟨_, (Oracle.target_eq_error hty).mpr (Or.inl ⟨hother, rfl⟩)⟩
      · exact ⟨_, (Oracle.target_eq_error hty).mpr (Or.inr ⟨fn, tys, rfl, hresolve⟩)⟩

end Source.Loaded

end MirAudit
