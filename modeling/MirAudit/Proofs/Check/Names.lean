import MirAudit.Proofs.Check.Concrete
import MirAudit.Proofs.Check.Inspection
import MirAudit.Proofs.Check.Suite
import MirAudit.Proofs.Source.InstanceNames
import MirAudit.Proofs.Source.LegibleItems

/-!
# Names in accepted programs

In an accepted text no two types that are written have the same printed form, and no two instances
have the same name or key. The same holds of what an audit reaches and of what an inspection lists,
although the types there need not be written anywhere: they are put together from types that are.
Read `names_of_text` first.
-/

namespace MirAudit

open Source

/-! ## Types as written -/

namespace Source.Scope

variable {s : Scope} {ty : Ty}

/-- The type can be written where no type parameter is in scope: with the names of the scope alone,
or where `Self` is bound to a type that can. -/
def Writes (s : Scope) (ty : Ty) : Prop :=
  s.Denotable ty ∨ ∃ self, s.Denotable self ∧ (s.bind "Self" self).Denotable ty

theorem Denotable.legible (hs : s.Legible) (h : s.Denotable ty) : ty.Legible := by
  obtain ⟨text, tree, hending, hderives, hlower⟩ := h
  exact TypeTree.legible_of_derives (is_name_of_lexed hending) hderives s hs ty hlower

theorem Denotable.concrete
    (hs : ∀ name bound, s.types.lookup name = some bound → bound.hasParam = false)
    (h : s.Denotable ty) : ty.hasParam = false := by
  obtain ⟨text, tree, -, -, hlower⟩ := h
  exact TypeTree.lower_concrete hs hlower

theorem Writes.legible (hs : s.Legible) (h : s.Writes ty) : ty.Legible := by
  rcases h with h | ⟨self, hself, h⟩
  · exact h.legible hs
  · exact h.legible (hs.bind "Self" (hself.legible hs))

theorem Writes.concrete (hs : s.types = []) (h : s.Writes ty) : ty.hasParam = false := by
  have hnone : ∀ name bound, s.types.lookup name = some bound → bound.hasParam = false := by
    rw [hs]
    exact nofun
  rcases h with h | ⟨self, hself, h⟩
  · exact h.concrete hnone
  · refine h.concrete fun name bound hbound => ?_
    change (("Self", self) :: s.types).lookup name = some bound at hbound
    rw [lookup_cons_eq] at hbound
    split at hbound
    next =>
      cases hbound
      exact hself.concrete hnone
    next => exact hnone name bound hbound

end Source.Scope

/-! ## Instances -/

/-- Whatever was resolved before, some function is resolved to the instance for type arguments that
can be written in the scope. -/
def Program.HandsOut (p : Program) (s : Scope) (i : Instance) : Prop :=
  ∃ q, p.Resolving q ∧ ∃ id args r, (∀ arg ∈ args, s.Writes arg) ∧
    q.resolve id args = (.ok i, r)

/-- The callee types of a body are some of its types. -/
theorem Body.callee_types_subset (b : Body) : b.calleeTypes ⊆ b.types := by
  intro ty hty
  obtain ⟨block, hblock, hcallee⟩ := List.mem_filterMap.mp hty
  split at hcallee
  next func args dest target hcall =>
    exact Body.callee_ty_mem_types hblock hcall (Outcome.to_option_eq_some.mp hcallee)
  next => cases hcallee

/-- The types in the body of an instance with legible arguments are legible. -/
theorem Program.Legible.body_types {p : Program} {i : Instance} {body : Body} (hp : p.Legible)
    (hargs : ∀ arg ∈ i.args, arg.Legible) (h : p.bodyOf i = .ok (some body)) :
    ∀ ty ∈ body.types, ty.Legible := by
  obtain ⟨fn, generic, hfn, -, hbody, -, rfl⟩ := Program.body_of_eq_some.mp h
  intro ty hty
  rw [Body.types_subst] at hty
  obtain ⟨written, hwritten, rfl⟩ := List.mem_map.mp hty
  refine (hp.types hfn hbody written hwritten).subst fun name arg hlookup => hargs arg ?_
  exact (List.of_mem_zip (mem_of_lookup hlookup)).2

namespace Source.Loaded

variable {l : Loader} {items : List (Spanned ItemTree)} {p : Program} {i : Instance}

/-- What is resolved for legible arguments is legible. -/
theorem legible_of_resolve (hp : Loaded l items p) (hlegible : p.Legible) {id : DefId}
    {args : List Ty} (hargs : ∀ arg ∈ args, arg.Legible)
    (h : p.environment.resolve id args = .ok i) : i.Legible := by
  obtain ⟨fn, hfn, -⟩ := Environment.resolve_arity hp.coherent h
  have hsuffix := Environment.resolve_args_suffix h
  exact ⟨hlegible.crate hfn, hlegible.path hfn, fun arg harg => hargs arg (hsuffix.subset harg),
    Environment.resolve_concrete h⟩

theorem legible_of_hands_out (hp : Loaded l items p) (hscope : l.scope.Legible)
    (hlegible : p.Legible) (h : p.HandsOut l.scope i) : i.Legible := by
  obtain ⟨q, hq, id, args, r, hargs, hresolve⟩ := h
  have hinterned := Program.InternedFrom.of_resolving hq hp.interned hp.coherent
  have hanswer := (hinterned.resolve hp.coherent.idempotent id args).1
  rw [hresolve] at hanswer
  exact hp.legible_of_resolve hlegible (fun arg harg => (hargs arg harg).legible hscope)
    (Program.oracle_resolve_eq_ok.mp hanswer.symm)

/-- What can be reached is legible: its arguments are put together from types in bodies. -/
theorem legible_of_reaches (hp : Loaded l items p) (hlegible : p.Legible)
    (h : p.oracle.Reaches p.auditRoots i) : i.Legible := by
  obtain ⟨fn, hfn, -⟩ := hp.arity_of_reaches h
  -- an argument may be too large to stand in any body, but its heads do
  have hcallees : p.CalleesIn LegibleHead := fun hfn hbody ty hty =>
    hlegible.types hfn hbody ty (Body.callee_types_subset _ hty)
  exact ⟨hlegible.crate hfn, hlegible.path hfn, hp.heads_of_reaches hcallees h,
    hp.concrete_of_reaches h⟩

end Source.Loaded

/-! ## Reports -/

namespace Model

/-- The name of the check of an instance begins like no other name of a check. -/
theorem body_check_name_ne (i : Instance) : ∀ name ∈ ["test_entry_fn", "test_all_fns",
    "test_crates", "test_instances", "test_traits"], bodyCheckName i ≠ name := by
  have hbody : (bodyCheckName i).toList.take 10 = "test_body[".toList := by
    simp [bodyCheckName]
  have hothers : ∀ name ∈ ["test_entry_fn", "test_all_fns", "test_crates", "test_instances",
      "test_traits"], name.toList.take 10 ≠ "test_body[".toList := by
    decide
  intro name hname heq
  exact hothers name hname (heq ▸ hbody)

theorem name_eq_of_body_check_name {i j : Instance} (h : bodyCheckName i = bodyCheckName j) :
    i.name = j.name := by
  have hlists := congrArg String.toList h
  simpa [bodyCheckName, String.toList_inj] using hlists

/-- The checks of an audit have different names if the instances that are checked are different and
legible. -/
theorem nodup_audit_results {instances : List Instance} (hnodup : instances.Nodup)
    (hlegible : ∀ i ∈ instances, i.Legible) (config : RunConfig) (search traits : Verdict) :
    ((auditResults config instances search traits).map CheckResult.name).Nodup := by
  have hnames : (auditResults config instances search traits).map CheckResult.name =
      ["test_entry_fn", "test_all_fns", "test_crates", "test_instances"] ++
        (instances.map bodyCheckName ++ if config.fixme then ["test_traits"] else []) := by
    unfold auditResults
    cases config.fixme <;> simp
  have hbodies : (instances.map bodyCheckName).Nodup :=
    hnodup.map_on fun i hi j hj heq =>
      (hlegible i hi).eq_of_name (hlegible j hj) (name_eq_of_body_check_name heq)
  have hlast : (if config.fixme then ["test_traits"] else []) ⊆ ["test_traits"] := by
    split
    next => exact List.Subset.refl _
    next => exact List.nil_subset _
  rw [hnames]
  refine .append (by decide) (.append hbodies ?_ ?_) ?_
  · cases config.fixme <;> decide
  · rintro name hname hother
    obtain ⟨i, -, rfl⟩ := List.mem_map.mp hname
    refine body_check_name_ne i _ ?_ rfl
    exact List.mem_append_right ["test_entry_fn", "test_all_fns", "test_crates", "test_instances"]
      (hlast hother)
  · rintro name hname hother
    rcases List.mem_append.mp hother with hother | hother
    · obtain ⟨i, -, rfl⟩ := List.mem_map.mp hother
      exact body_check_name_ne i _ (List.mem_append_left ["test_traits"] hname) rfl
    · obtain rfl := List.mem_singleton.mp (hlast hother)
      revert hname
      decide

end Model

namespace Source.Loaded

variable {l : Loader} {items : List (Spanned ItemTree)} {p : Program}

/-- An audit whose search is cut off has recorded the checks in front of the search. -/
theorem audit_cut_off (hp : Loaded l items p) (config : RunConfig) {fuel : Nat}
    (hentry : ¬ p.GenericEntry)
    (hsearch : (Discovery.start p.auditRoots).search p.oracle.edges fuel = none) {q : Program}
    (hq : p.InternedFrom q) :
    ∃ session last,
      (Program.model.audit config fuel).execute q = (some .outOfFuel, session, last) ∧
      session.report.results.map CheckResult.name =
        ["test_entry_fn", "test_all_fns", "test_crates"] := by
  -- the state goes from the roots through the first checks to the search
  obtain ⟨q₁, hq₁, hroots⟩ := Audit.Does.of_query (hp.roots_answer hentry) {} q hq
  obtain ⟨q₂, hq₂, hfirst⟩ := hp.first_checks_do config {} q₁ hq₁
  obtain ⟨last, -, hcut⟩ := hp.discover_outcome hq₂ fuel
  rw [hsearch] at hcut
  refine ⟨Session.recordOk {} config ["test_entry_fn", "test_all_fns", "test_crates"], last, ?_, ?_⟩
  · unfold Model.audit Model.auditDiscovery
    rw [Audit.execute_eq, Audit.outcome_bind, hroots]
    dsimp only [id]
    rw [Audit.outcome_bind, hfirst]
    dsimp only
    rw [Audit.outcome_bind, Audit.outcome_bind, Audit.outcome_of_run, hcut]
  · simp [Session.results_record_ok]

/-- The names in the report of an audit are different, whether the audit halted or not. -/
theorem nodup_report (hp : Loaded l items p) (hlegible : p.Legible) (config : RunConfig)
    (fuel : Nat) {q : Program} (hq : p.InternedFrom q) :
    (((Program.model.audit config fuel).execute q).2.1.report.results.map
      CheckResult.name).Nodup := by
  -- the audit halts at its roots or at its search, or it comes to its end
  by_cases hentry : p.GenericEntry
  · obtain ⟨message, hhalts⟩ := hp.audit_halts hentry
    obtain ⟨next, -, hexecute⟩ := hhalts q hq
    rw [hexecute config fuel]
    exact List.nodup_nil
  · cases hsearch : (Discovery.start p.auditRoots).search p.oracle.edges fuel with
    | none =>
        obtain ⟨session, last, hexecute, hnames⟩ := hp.audit_cut_off config hentry hsearch hq
        rw [hexecute, hnames]
        decide
    | some d =>
        obtain ⟨hfaithful, -⟩ :=
          (Discovery.Faithful.start p.oracle.edges p.auditRoots).search hsearch
        obtain ⟨traits, change, -, -, hdoes, hresults⟩ := hp.audit_does config hentry hsearch
        obtain ⟨last, hexecute⟩ := hdoes.execute hq
        rw [hexecute, hresults]
        refine Model.nodup_audit_results hfaithful.nodup (fun i hi => ?_) config _ _
        refine hp.legible_of_reaches hlegible ?_
        rwa [← Oracle.reaches_iff, ← Discovery.mem_instances_of_search hsearch]

/-- The types that an inspection lists have different texts. -/
theorem nodup_inspection (hp : Loaded l items p) (hlegible : p.Legible) {q r : Program}
    (hq : p.InternedFrom q) {known : Inspection} {printed : Printed}
    (h : Program.model.inspect.execute q = (.ok known, printed, r)) :
    (known.sortedTypes.map Ty.render).Nodup := by
  obtain ⟨result, hgives, hlists⟩ := hp.inspect_gives
  have hresult : .ok known = result := by
    rw [← (hgives {} q hq).1]
    exact (congrArg Prod.fst h).symm
  obtain ⟨entry, body, -, hbody, hnodup, hsubset⟩ := hlists known hresult.symm
  have hsorted : known.sortedTypes.Perm known.types := List.mergeSort_perm _ _
  have hnone : ∀ arg ∈ ([] : List Ty), arg.Legible ∧ arg.hasParam = false :=
    fun arg harg => absurd harg List.not_mem_nil
  have hbodies := hlegible.body_types (fun arg harg => (hnone arg harg).1) hbody
  have hconcrete := hp.body_concrete (fun arg harg => (hnone arg harg).2) hbody
  refine (hsorted.nodup_iff.mpr hnodup).map_on fun t ht u hu heq => ?_
  have hmem : ∀ ty ∈ known.sortedTypes, ty ∈ body.types := fun ty hty =>
    hsubset (hsorted.mem_iff.mp hty)
  exact (hbodies t (hmem t ht)).eq_of_render (hbodies u (hmem u hu)) (hconcrete t (hmem t ht))
    (hconcrete u (hmem u hu)) heq

end Source.Loaded

/-- In a program that was read from a text, with the scope that has the names of its crates: types
that can be written where no type parameter is in scope differ in their printed forms. Different
instances of registered functions that are handed out for such arguments differ in their names and
in their keys. Whatever was resolved before, the names in the report of an audit are different, and
so are the texts of the types that an inspection lists. -/
theorem names_of_text {file : Option String} {text : List Char} {p : Program}
    (h : loadText file text = .ok p) :
    ∃ s : Scope, p.crateName? = some s.localCrate ∧
      s.crates = s.localCrate :: p.externals.map Crate.name ∧ s.types = [] ∧
      (∀ t u, s.Writes t → s.Writes u → t.render = u.render → t = u) ∧
      (∀ i j, p.HandsOut s i → p.HandsOut s j → i ≠ j → i.name ≠ j.name ∧ i.key ≠ j.key) ∧
      ∀ q, p.Resolving q →
        (∀ config fuel, (((Program.model.audit config fuel).execute q).2.1.report.results.map
          CheckResult.name).Nodup) ∧
        ∀ known printed r, Program.model.inspect.execute q = (.ok known, printed, r) →
          (known.sortedTypes.map Ty.render).Nodup := by
  obtain ⟨items, l, hp, hscope, hlegible⟩ := legible_of_text h
  refine ⟨l.scope, hp.crateName, hp.crates, hp.no_types, ?_, ?_, ?_⟩
  · intro t u ht hu heq
    exact (ht.legible hscope).eq_of_render (hu.legible hscope) (ht.concrete hp.no_types)
      (hu.concrete hp.no_types) heq
  · intro i j hi hj hne
    have hleft := hp.legible_of_hands_out hscope hlegible hi
    have hright := hp.legible_of_hands_out hscope hlegible hj
    exact ⟨fun heq => hne (hleft.eq_of_name hright heq),
      fun heq => hne (hleft.eq_of_key hright heq)⟩
  · intro q hq
    have hinterned := Program.InternedFrom.of_resolving hq hp.interned hp.coherent
    exact ⟨fun config fuel => hp.nodup_report hlegible config fuel hinterned,
      fun known printed r hinspect => hp.nodup_inspection hlegible hinterned hinspect⟩

/-- A generic function that is called for unit and for a tuple that holds unit. -/
def pickText : String :=
  "fn pick<T>() \x7b
    let _0: ();
    bb0: \x7b return; \x7d
\x7d
entry fn main() \x7b
    let _0: ();
    bb0: \x7b call _0 = fndef pick<()>() -> bb1; \x7d
    bb1: \x7b call _0 = fndef pick<((),)>() -> bb2; \x7d
    bb2: \x7b return; \x7d
\x7d
"

/-- The instance of `pick` for a type. -/
def Instance.pick (ty : Ty) : Instance :=
  ⟨⟨"main", "pick"⟩, [ty]⟩

/-- How many types a walk of the entry point finds. -/
def Program.countEntryTypes (p : Program) : Option Nat := do
  let i ← p.entry.bind p.itemRoot?
  let body ← (← (p.bodyOf i).toOption)
  let known ← ((Inspection.ofBody Program.model body).ask p).1.toOption
  return known.types.length

/-- What a walk of the entry point finds is what an inspection gives. -/
theorem Source.Loaded.inspect_of_count {l : Loader} {items : List (Spanned ItemTree)} {p : Program}
    (hp : Loaded l items p) {count : Nat} (h : p.countEntryTypes = some count) :
    ∃ known printed r, Program.model.inspect.execute p = (.ok known, printed, r) ∧
      known.types.length = count := by
  simp only [Program.countEntryTypes, Option.bind_eq_bind, Option.bind_eq_some_iff,
    Outcome.to_option_eq_some, Option.pure_def, Option.some.injEq] at h
  obtain ⟨i, ⟨entry, hentry, hroot⟩, _, hbody, body, rfl, known, hknown, hcount⟩ := h
  have hstart : p.InternedFrom p := .start hp.interned
  have hanswers := Inspection.of_body_answers (Program.answers_from_oracle hp.coherent) body
  rw [← (hanswers p hstart).1, hknown] at hanswers
  have hgives := hp.inspect_of_entry hentry hroot (hp.inspect_instance_of_body hbody hanswers)
  exact ⟨known, _, _, Prod.ext (hgives {} p hstart).1 rfl, hcount⟩

/-- What an audit and a walk of the program of `pickText` find. -/
def Program.isPicking (p : Program) : Bool :=
  (p.resolve ⟨"main", "pick"⟩ [.unit]).1 = .ok (.pick .unit) ∧
    (p.resolve ⟨"main", "pick"⟩ [.tuple [.unit]]).1 = .ok (.pick (.tuple [.unit])) ∧
    ((Program.model.audit {} 9).execute p).2.1.report.results.length = 7 ∧
    p.countEntryTypes = some 3

set_option maxRecDepth 20000 in
/-- Two instances of one function have different names, and the seven checks of the audit and the
three types of the entry point are told apart. -/
theorem names_of_text_pick :
    ∃ p names known printed r, loadText none pickText.toList = .ok p ∧
      (Instance.pick .unit).name ≠ (Instance.pick (.tuple [.unit])).name ∧
      (Instance.pick .unit).key ≠ (Instance.pick (.tuple [.unit])).key ∧
      ((Program.model.audit {} 9).execute p).2.1.report.results.map CheckResult.name = names ∧
      names.length = 7 ∧ names.Nodup ∧
      Program.model.inspect.execute p = (.ok known, printed, r) ∧
      known.types.length = 3 ∧ (known.sortedTypes.map Ty.render).Nodup := by
  obtain ⟨p, hload, hpicking⟩ : ∃ p, loadText none pickText.toList = .ok p ∧ p.isPicking = true :=
    exists_of_load_chars (by decide +kernel)
  simp only [Program.isPicking, Bool.decide_and, Bool.and_eq_true, decide_eq_true_eq] at hpicking
  obtain ⟨hunit, htuple, hresults, hcount⟩ := hpicking
  obtain ⟨items, l, -, -, hp⟩ := loaded_of_text hload
  obtain ⟨known, printed, r, hinspect, hlength⟩ := hp.inspect_of_count hcount
  obtain ⟨s, -, -, -, -, hinstances, hruns⟩ := names_of_text hload
  have hfirst : p.HandsOut s (.pick .unit) :=
    ⟨p, .refl, _, _, _, List.forall_mem_singleton.mpr (Or.inl (denotable_tower s 0)),
      Prod.ext hunit rfl⟩
  have hsecond : p.HandsOut s (.pick (.tuple [.unit])) :=
    ⟨p, .refl, _, _, _, List.forall_mem_singleton.mpr (Or.inl (denotable_tower s 1)),
      Prod.ext htuple rfl⟩
  obtain ⟨hname, hkey⟩ := hinstances _ _ hfirst hsecond (by decide)
  obtain ⟨hreport, htypes⟩ := hruns p .refl
  exact ⟨p, _, known, printed, r, hload, hname, hkey, rfl, by rw [List.length_map, hresults],
    hreport {} 9, hinspect, hlength, htypes known printed r hinspect⟩

end MirAudit
