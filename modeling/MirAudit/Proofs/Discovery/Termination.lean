import MirAudit.Proofs.Body.Types
import MirAudit.Proofs.Check.Reached
import MirAudit.Proofs.Ty.Parts

/-!
# When the search of a loaded program ends

The types that a search meets are put together from the callee types in the bodies, which have
finitely many heads. So infinitely many instances can be reached only with type arguments of
unbounded size: `discover_ends_iff`. Functions that call themselves with larger and larger type
arguments do that, and `doubling_never_ends` is an example.
-/

namespace MirAudit

/-! ## Callee types -/

/-- The types of the operands that a body calls. -/
def Body.calleeTypes (b : Body) : List Ty :=
  b.blocks.filterMap fun block =>
    match block.terminator with
    | .call func _ _ _ => (func.ty b.locals).toOption
    | _ => none

/-- The callee types of an instance are those of its function with the parameters replaced. -/
theorem Body.callee_ty_of_subst {b : Body} {s : Subst} {block : Block} {func : Operand}
    {args : List Operand} {dest : Slot} {target : Option BlockNumber} {ty : Ty}
    (hblock : block ∈ (b.subst s).blocks) (hcall : block.terminator = .call func args dest target)
    (hty : func.ty (b.subst s).locals = .ok ty) :
    ∃ generic ∈ b.calleeTypes, generic.subst s = ty := by
  obtain ⟨original, horiginal, rfl⟩ := List.mem_map.mp hblock
  have hterminator : original.terminator.subst s = .call func args dest target := hcall
  cases hplain : original.terminator with
  | call callee operands slot next =>
      rw [hplain] at hterminator
      obtain ⟨rfl, -⟩ := Terminator.call.inj hterminator
      have hsubst := (callee.ty_subst s b.locals).symm.trans hty
      cases hgeneric : callee.ty b.locals with
      | error crash =>
          rw [hgeneric] at hsubst
          cases hsubst
      | ok generic =>
          rw [hgeneric] at hsubst
          refine ⟨generic, List.mem_filterMap.mpr ⟨original, horiginal, ?_⟩, Except.ok.inj hsubst⟩
          rw [hplain]
          show (callee.ty b.locals).toOption = some generic
          rw [hgeneric]
          rfl
  | goto | «return» | unreachable | switch | drop | assert | unknown =>
      rw [hplain] at hterminator
      cases hterminator

namespace Program

variable {p : Program} {S : Set Ty.Head} {i j : Instance}

/-- The callee types of all bodies have their heads in `S`. -/
def CalleesIn (p : Program) (S : Set Ty.Head) : Prop :=
  ∀ {id fn body}, p.fnDecl id = some fn → fn.body = some body →
    ∀ ty ∈ body.calleeTypes, ty.HeadsIn S

theorem exists_callee_heads (p : Program) : ∃ S : Set Ty.Head, S.Finite ∧ p.CalleesIn S := by
  obtain ⟨S, hfinite, hheads⟩ :=
    Ty.exists_heads ((p.fns.values.filterMap FnDecl.body).flatMap Body.calleeTypes)
  refine ⟨S, hfinite, fun {id fn body} hfn hbody ty hty => hheads ty ?_⟩
  have hvalue : fn ∈ p.fns.values :=
    List.mem_map.mpr ⟨_, Table.mem_entries_of_get hfn, rfl⟩
  exact List.mem_flatMap.mpr ⟨body, List.mem_filterMap.mpr ⟨fn, hvalue, hbody⟩, hty⟩

/-- The arguments of a callee are put together from the callee types of the bodies and from the
arguments of the caller. -/
theorem heads_of_calls (hS : p.CalleesIn S) (hcall : p.oracle.Calls i j)
    (hi : ∀ arg ∈ i.args, arg.HeadsIn S) : ∀ arg ∈ j.args, arg.HeadsIn S := by
  obtain ⟨body, hbody, -, block, hblock, func, args, dest, target, fn, tys, hterminator, hty,
    hresolve⟩ := hcall
  obtain ⟨decl, generic, hdecl, -, hgeneric, -, rfl⟩ := body_of_eq_some.mp hbody
  obtain ⟨ty, hcallee, hsubst⟩ := Body.callee_ty_of_subst hblock hterminator hty
  have hheads : (Ty.fnDef fn tys).HeadsIn S := by
    rw [← hsubst]
    refine (hS hdecl hgeneric ty hcallee).subst fun name arg hlookup => hi arg ?_
    obtain ⟨before, behind, hzip, -⟩ := List.lookup_eq_some_iff.mp hlookup
    have hmem : (name, arg) ∈ decl.paramNames.zip i.args := by
      rw [show decl.paramNames.zip i.args = _ from hzip]
      simp
    exact (List.of_mem_zip hmem).2
  -- resolution may drop `Self`, and keeps the other arguments
  have hargs := Environment.resolve_args_suffix (oracle_resolve_eq_ok.mp hresolve)
  exact fun arg harg => hheads.part (hargs.subset harg)

/-- There are finitely many instances of the functions of a program with arguments of a bounded
size and with heads in a finite set. -/
theorem finite_instances (hp : p.Registered) (hS : S.Finite) (bound : Nat) :
    {i : Instance | (∃ fn, p.fnDecl i.defId = some fn ∧ i.args.length = fn.generics.length) ∧
      ∀ arg ∈ i.args, arg.HeadsIn S ∧ arg.size ≤ bound}.Finite := by
  have hlists := fun fn : FnDecl =>
    Ty.finite_lists (Ty.finite_of_size_le hS bound) fn.generics.length
  refine (p.fns.values.finite_toSet.biUnion fun fn _ =>
    (hlists fn).image fun args => (⟨fn.defId, args⟩ : Instance)).subset ?_
  rintro ⟨id, args⟩ ⟨⟨fn, hfn, hlength⟩, hargs⟩
  have hid : fn.defId = id := hp.def_id hfn
  have hvalue : fn ∈ p.fns.values := List.mem_map.mpr ⟨_, Table.mem_entries_of_get hfn, rfl⟩
  exact Set.mem_biUnion hvalue ⟨args, ⟨hlength.le, hargs⟩, by rw [hid]⟩

end Program

/-! ## Loaded programs -/

namespace Source.Loaded

variable {l : Loader} {items : List (Spanned ItemTree)} {p : Program} {i : Instance}

theorem heads_of_reaches (hp : Loaded l items p) {S : Set Ty.Head} (hS : p.CalleesIn S)
    (h : p.oracle.Reaches p.auditRoots i) : ∀ arg ∈ i.args, arg.HeadsIn S := by
  obtain ⟨root, hroot, hpath⟩ := h
  induction hpath with
  | refl =>
      obtain ⟨item, -, -, -, rfl⟩ := (Program.mem_audit_roots hp.registered).mp hroot
      exact fun arg harg => absurd harg List.not_mem_nil
  | tail _ hcall ih => exact Program.heads_of_calls hS hcall ih

/-- What can be reached is finite exactly if its type arguments are of bounded size. -/
theorem finite_reaches_iff (hp : Loaded l items p) :
    {i | p.oracle.Reaches p.auditRoots i}.Finite ↔
      ∃ bound, ∀ i, p.oracle.Reaches p.auditRoots i → ∀ arg ∈ i.args, arg.size ≤ bound := by
  constructor
  · intro hfinite
    have hargs : (⋃ i ∈ {i | p.oracle.Reaches p.auditRoots i}, {arg | arg ∈ i.args}).Finite :=
      hfinite.biUnion fun i _ => i.args.finite_toSet
    obtain ⟨bound, hbound⟩ := (hargs.image Ty.size).bddAbove
    exact ⟨bound, fun i hi arg harg => hbound ⟨arg, Set.mem_biUnion hi harg, rfl⟩⟩
  · intro h
    obtain ⟨bound, hbound⟩ := h
    -- all arguments are made of the heads in the program, of which there are finitely many
    obtain ⟨S, hfinite, hS⟩ := p.exists_callee_heads
    refine (Program.finite_instances hp.registered hfinite bound).subset fun i hi => ?_
    exact ⟨hp.arity_of_reaches hi, fun arg harg =>
      ⟨hp.heads_of_reaches hS hi arg harg, hbound i hi arg harg⟩⟩

/-- The search over the edges ends exactly if type arguments stay small. -/
theorem search_ends_iff (hp : Loaded l items p) :
    (∃ fuel d, (Discovery.start p.auditRoots).search p.oracle.edges fuel = some d) ↔
      ∃ bound, ∀ i, p.oracle.Reaches p.auditRoots i → ∀ arg ∈ i.args, arg.size ≤ bound := by
  rw [Discovery.search_ends_iff, ← hp.finite_reaches_iff]
  simp only [Oracle.reaches_iff]

end Source.Loaded

/-! ## Calls with larger and larger arguments -/

/-- A function that calls itself with a pair of its type argument, called by the entry point. -/
def doublingText : String :=
  "fn double<T>() \x7b
    let _0: ();
    bb0: \x7b call _0 = fndef double<(T, T)>() -> bb1; \x7d
    bb1: \x7b return; \x7d
\x7d
entry fn main() \x7b
    let _0: ();
    bb0: \x7b call _0 = fndef double<()>() -> bb1; \x7d
    bb1: \x7b return; \x7d
\x7d
"

/-- The body that calls `double` with a type argument. -/
def doublingBody (arg : Ty) : Body :=
  { blocks :=
      [⟨[], .call (.const (.fnDef ⟨"main", "double"⟩ [arg]) .unit) [] 0 (some 1)⟩,
       ⟨[], .return⟩]
    locals := [{ ty := .unit }] }

/-- What the search sees of the program of `doublingText`. -/
def Program.isDoubling (p : Program) : Bool :=
  p.entry.map Item.defId = some ⟨"main", "main"⟩ ∧
    p.auditRoots = [⟨⟨"main", "main"⟩, []⟩] ∧
    (p.fnDecl ⟨"main", "main"⟩).any (fun fn =>
      !fn.isExtern && fn.generics = [] && fn.body = some (doublingBody .unit)) ∧
    (p.fnDecl ⟨"main", "double"⟩).any fun fn =>
      !fn.isExtern && fn.generics = [{ name := "T" }] && fn.traitDef = none &&
        fn.body = some (doublingBody (.tuple [.param "T", .param "T"]))

set_option maxRecDepth 20000 in
theorem load_doubling :
    ∃ p, Source.loadText none doublingText.toList = .ok p ∧ p.isDoubling = true :=
  Source.exists_of_load_chars (by decide +kernel)

/-- The argument of the `n`-th call of `double`. -/
def doubled : Nat → Ty
  | 0 => .unit
  | n + 1 => .tuple [doubled n, doubled n]

theorem doubled_concrete (n : Nat) : (doubled n).hasParam = false := by
  induction n with
  | zero => rfl
  | succ n ih => simp [doubled, Ty.hasParam, Ty.anyHasParam, ih]

theorem lt_size_doubled (n : Nat) : n < (doubled n).size := by
  induction n with
  | zero => exact Ty.size_pos _
  | succ n ih =>
      simp only [doubled, Ty.size, Ty.sizeAll]
      omega

namespace Program

variable {p : Program}

/-- Every instance of `double` with a concrete argument resolves to itself, and its body calls
`double` with the pair. -/
theorem double_instance (hp : p.isDoubling = true) {arg : Ty} (harg : arg.hasParam = false) :
    p.environment.resolve ⟨"main", "double"⟩ [arg] = .ok ⟨⟨"main", "double"⟩, [arg]⟩ ∧
      p.bodyOf ⟨⟨"main", "double"⟩, [arg]⟩ = .ok (some (doublingBody (.tuple [arg, arg]))) := by
  simp only [isDoubling, Bool.decide_and, Bool.and_eq_true, decide_eq_true_eq, Option.any_eq_true,
    Bool.not_eq_true'] at hp
  obtain ⟨-, -, -, fn, hfn, ⟨⟨hlocal, hgenerics⟩, htrait⟩, hbody⟩ := hp
  constructor
  · refine Environment.resolve_eq_ok.mpr ⟨fn, hfn, ?_, ?_, ?_, Or.inl ⟨htrait, rfl⟩⟩
    · rw [hgenerics]
      rfl
    · simpa using harg
    · rw [Environment.checkBounds, hgenerics]
      rfl
  · refine body_of_eq_some.mpr ⟨fn, _, hfn, hlocal, hbody, ?_, ?_⟩
    · rw [FnDecl.paramNames, hgenerics]
      rfl
    · rw [FnDecl.paramNames, hgenerics]
      rfl

/-- A call of `double` in a body leads to its instance. -/
theorem calls_double {i : Instance} {arg : Ty} (hp : p.isDoubling = true)
    (hbody : p.bodyOf i = .ok (some (doublingBody arg))) (harg : arg.hasParam = false) :
    p.oracle.Calls i ⟨⟨"main", "double"⟩, [arg]⟩ := by
  have hresolve := oracle_resolve_eq_ok.mpr (double_instance hp harg).1
  refine ⟨doublingBody arg, hbody, rfl, _, List.mem_cons_self, ?_⟩
  exact ⟨_, _, _, _, _, _, rfl, rfl, hresolve⟩

/-- Every call of `double` is reached. -/
theorem reaches_doubled (hp : p.isDoubling = true) (n : Nat) :
    p.oracle.Reaches p.auditRoots ⟨⟨"main", "double"⟩, [doubled n]⟩ := by
  induction n with
  | zero =>
      have hparts := hp
      simp only [isDoubling, Bool.decide_and, Bool.and_eq_true, decide_eq_true_eq,
        Option.any_eq_true, Bool.not_eq_true'] at hparts
      obtain ⟨-, hroots, ⟨main, hmain, ⟨hlocal, hgenerics⟩, hbody⟩, -⟩ := hparts
      refine ⟨⟨⟨"main", "main"⟩, []⟩, by rw [hroots]; exact List.mem_cons_self, .single ?_⟩
      refine calls_double hp (body_of_eq_some.mpr ⟨main, _, hmain, hlocal, hbody, ?_, ?_⟩) rfl
      · rw [FnDecl.paramNames, hgenerics]
        rfl
      · rw [FnDecl.paramNames, hgenerics]
        rfl
  | succ n ih =>
      obtain ⟨root, hroot, hpath⟩ := ih
      refine ⟨root, hroot, hpath.tail ?_⟩
      exact calls_double hp (double_instance hp (doubled_concrete n)).2 (doubled_concrete (n + 1))

theorem not_generic_entry_doubling (hp : p.isDoubling = true) : ¬ p.GenericEntry := by
  simp only [isDoubling, Bool.decide_and, Bool.and_eq_true, decide_eq_true_eq, Option.any_eq_true,
    Option.map_eq_some_iff] at hp
  obtain ⟨⟨entry, hentry, hid⟩, -, ⟨fn, hfn, ⟨-, hgenerics⟩, -⟩, -⟩ := hp
  intro h
  obtain ⟨other, decl, hother, hdecl, hgeneric⟩ := h
  obtain rfl := Option.some.inj (hentry.symm.trans hother)
  rw [hid, hfn] at hdecl
  obtain rfl := Option.some.inj hdecl
  simp [FnDecl.isGeneric, hgenerics] at hgeneric

end Program

/-! ## Accepted texts -/

/-- From the roots of an accepted text the search ends exactly if the type arguments of what can be
reached are of bounded size. If it does not end, it goes on for any number of steps. -/
theorem discover_ends_iff {file : Option String} {text : List Char} {p q : Program}
    {roots : List Instance} (hload : Source.loadText file text = .ok p)
    (hroots : Program.model.roots.ask p = (.ok roots, q)) :
    ((∃ fuel d next, (Program.model.discover fuel roots).outcome q = (.ok d, next)) ↔
      ∃ bound, ∀ i, p.oracle.Reaches roots i → ∀ arg ∈ i.args, arg.size ≤ bound) ∧
    ∀ fuel, (∃ d next, (Program.model.discover fuel roots).outcome q = (.ok d, next)) ∨
      ∃ next, (Program.model.discover fuel roots).outcome q = (.error .outOfFuel, next) := by
  obtain ⟨items, l, -, -, hp⟩ := Source.loaded_of_text hload
  obtain ⟨rfl, hq⟩ := hp.roots_eq (.start hp.interned) hroots
  have hends : ∀ fuel,
      (∃ d next, (Program.model.discover fuel p.auditRoots).outcome q = (.ok d, next)) ↔
        ∃ d, (Discovery.start p.auditRoots).search p.oracle.edges fuel = some d := by
    intro fuel
    obtain ⟨next, -, houtcome⟩ := hp.discover_outcome hq fuel
    rw [houtcome]
    cases (Discovery.start p.auditRoots).search p.oracle.edges fuel with
    | none => simp
    | some d => simp
  refine ⟨(exists_congr hends).trans hp.search_ends_iff, fun fuel => ?_⟩
  obtain ⟨next, -, houtcome⟩ := hp.discover_outcome hq fuel
  rw [houtcome]
  cases (Discovery.start p.auditRoots).search p.oracle.edges fuel with
  | none => exact Or.inr ⟨next, rfl⟩
  | some d => exact Or.inl ⟨d, next, rfl⟩

/-- The criterion at a text: the search from its roots ends exactly if arguments stay small. -/
theorem discover_ends_doubling :
    ∃ p q roots, Source.loadText none doublingText.toList = .ok p ∧
      Program.model.roots.ask p = (.ok roots, q) ∧
      ((∃ fuel d next, (Program.model.discover fuel roots).outcome q = (.ok d, next)) ↔
        ∃ bound, ∀ i, p.oracle.Reaches roots i → ∀ arg ∈ i.args, arg.size ≤ bound) := by
  obtain ⟨p, hload, hdoubling⟩ := load_doubling
  obtain ⟨items, l, -, -, hp⟩ := Source.loaded_of_text hload
  obtain ⟨hroots, -⟩ :=
    hp.roots_answer (Program.not_generic_entry_doubling hdoubling) p (.start hp.interned)
  have hask : Program.model.roots.ask p = (.ok p.auditRoots, (Program.model.roots.ask p).2) :=
    Prod.ext hroots rfl
  exact ⟨p, _, p.auditRoots, hload, hask, (discover_ends_iff hload hask).1⟩

/-- The text is accepted and its roots are found, but the search from them never ends. -/
theorem doubling_never_ends :
    ∃ p q roots, Source.loadText none doublingText.toList = .ok p ∧
      Program.model.roots.ask p = (.ok roots, q) ∧
      ∀ fuel, ∃ next,
        (Program.model.discover fuel roots).outcome q = (.error .outOfFuel, next) := by
  obtain ⟨p, hload, hdoubling⟩ := load_doubling
  obtain ⟨items, l, -, -, hp⟩ := Source.loaded_of_text hload
  obtain ⟨hroots, hq⟩ :=
    hp.roots_answer (Program.not_generic_entry_doubling hdoubling) p (.start hp.interned)
  refine ⟨p, _, p.auditRoots, hload, Prod.ext hroots rfl, fun fuel => ?_⟩
  have hnever : (Discovery.start p.auditRoots).search p.oracle.edges fuel = none := by
    rw [Option.eq_none_iff_forall_ne_some]
    intro d hd
    obtain ⟨bound, hbound⟩ := hp.search_ends_iff.mp ⟨fuel, d, hd⟩
    -- the instance that many calls away from the entry point is above any bound
    have hle := hbound _ (Program.reaches_doubled hdoubling bound) _ List.mem_cons_self
    have hlt := lt_size_doubled bound
    omega
  obtain ⟨next, -, houtcome⟩ := hp.discover_outcome hq fuel
  rw [hnever] at houtcome
  exact ⟨next, houtcome⟩

end MirAudit
