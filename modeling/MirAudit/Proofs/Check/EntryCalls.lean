import MirAudit.Proofs.Check.Names
import MirAudit.Proofs.Discovery.Account

/-!
# The calls of the entry instance

An inspection and a search both follow the calls of an instance. The inspection resolves them while
it walks and stops at the first that cannot be followed; the search first collects them all, and
notes each failure as a finding. From the entry instance of an accepted text they agree: on the
failure, on the callees and on what lies below these. Read `inspection_of_text` first.
-/

namespace MirAudit

open Source

/-! ## Direct calls -/

/-- The function that is called with its arguments, if the operand is a function item. -/
def CallSite.direct? (locals : List LocalDecl) (site : CallSite) : Option (DefId × List Ty) :=
  match site.func.ty locals with
  | .ok (.fnDef fn tys) => some (fn, tys)
  | _ => none

/-- The functions that a body calls directly, with their arguments, in block order. -/
def Body.directCalls (b : Body) : List (DefId × List Ty) :=
  b.callSites.filterMap (CallSite.direct? b.locals)

namespace Oracle

variable {o : Oracle} {i : Instance} {body : Body}

/-- The callees among the targets of some calls are what the direct ones are resolved to. -/
theorem direct_calls_of_targets {locals : List LocalDecl} {sites : List CallSite}
    {edges : List Edge}
    (h : List.Forall₂ (fun site edge => o.target locals site.func = .ok edge) sites edges) :
    List.Forall₂ (fun call callee => o.resolve call.1 call.2 = .ok callee)
      (sites.filterMap (CallSite.direct? locals)) (edges.filterMap Edge.callee?) := by
  induction h with
  | nil => exact .nil
  | @cons site edge sites edges htarget _ ih =>
      obtain ⟨fn, tys, callee, hty, hresolve, rfl⟩ | ⟨inputs, output, hty, rfl⟩ :=
        target_eq_ok.mp htarget
      · have hdirect : site.direct? locals = some (fn, tys) := by rw [CallSite.direct?, hty]
        rw [List.filterMap_cons_some hdirect]
        exact .cons hresolve ih
      · have hdirect : site.direct? locals = none := by rw [CallSite.direct?, hty]
        rw [List.filterMap_cons_none hdirect]
        exact ih

/-- The edges of an instance are the targets of its calls, if these are all found. -/
theorem edges_of_targets (hbody : o.bodyOf i = .ok (some body)) (hwalk : body.walk.stuck = none)
    {edges : List Edge}
    (h : List.Forall₂ (fun site edge => o.target body.locals site.func = .ok edge)
      body.callSites edges) : o.edges i = edges := by
  have hfollow : List.Forall₂ (· = ·) (body.callSites.map (o.follow i body.locals)) edges :=
    List.forall₂_map_left_iff.mpr (h.imp fun site edge htarget => by rw [follow, htarget])
  rw [List.forall₂_eq_eq_eq] at hfollow
  simp only [Oracle.edges, callSites, hbody, Body.calls_eq hwalk, hfollow]

/-- If all the calls of an instance can be followed, nothing is found about it. -/
theorem findings_of_targets (hbody : o.bodyOf i = .ok (some body))
    (hwalk : body.walk.stuck = none) {edges : List Edge}
    (h : List.Forall₂ (fun site edge => o.target body.locals site.func = .ok edge)
      body.callSites edges) : o.findings i = [] := by
  rw [← findings_eq, edges_of_targets hbody hwalk h, List.filterMap_eq_nil_iff]
  intro edge hedge
  obtain ⟨site, -, htarget⟩ := Outcome.of_mem_map_m (Outcome.map_m_eq_ok.mpr h) hedge
  exact fault_of_target htarget

/-- The first finding about an instance is about the first of its calls that cannot be followed. -/
theorem findings_of_error (hbody : o.bodyOf i = .ok (some body)) (hwalk : body.walk.stuck = none)
    {fault : Fault}
    (h : (body.callSites.mapM fun site => o.target body.locals site.func) = .error fault) :
    ∃ site ∈ body.callSites, o.target body.locals site.func = .error fault ∧
      ∃ rest, o.findings i = fault.finding.located i.name (some site.block) :: rest := by
  obtain ⟨before, site, after, hsites, hbefore, htarget⟩ := Outcome.first_of_map_m h
  have hnone : (before.map (o.follow i body.locals)).filterMap Edge.fault? = [] := by
    rw [List.filterMap_eq_nil_iff, List.forall_mem_map]
    intro other hother
    obtain ⟨edge, hedge⟩ := hbefore other hother
    rw [follow, hedge]
    exact fault_of_target hedge
  have hfault : (o.follow i body.locals site).fault? =
      some (fault.finding.located i.name (some site.block)) :=
    fault_follow_eq_some.mpr ⟨fault, htarget, rfl⟩
  refine ⟨site, hsites ▸ List.mem_append_right _ List.mem_cons_self, htarget,
    (after.map (o.follow i body.locals)).filterMap Edge.fault?, ?_⟩
  simp only [← findings_eq, Oracle.edges, callSites, hbody, Body.calls_eq hwalk, hsites,
    List.map_append, List.filterMap_append, hnone, List.nil_append, List.map_cons,
    List.filterMap_cons_some hfault]

/-- What an inspection finds in a body that can be walked: the types of its snapshot, and the
targets of its calls, unless there is one that cannot be followed. -/
theorem inspection_of_walk (hwalk : body.walk.stuck = none) :
    o.inspection body =
      (body.callSites.mapM fun site => o.target body.locals site.func).map fun edges =>
        { types := (Snapshot.ofEvents body.walk.events).types
          calls := (edges.filterMap Edge.callee?).eraseDups } := by
  rw [inspection, Body.filter_map_call hwalk, hwalk, Snapshot.types_of_events]
  rfl

/-- What can be reached from an instance is that instance and what its callees reach. -/
theorem reaches_singleton_iff {j : Instance} :
    o.Reaches [i] j ↔ j = i ∨ o.Reaches (o.callees i) j := by
  have hcallee : ∀ k, k ∈ o.callees i ↔ o.Calls i k := fun k => by
    rw [← callees_eq, mem_callees_iff]
  simp only [Reaches, List.mem_singleton, exists_eq_left, hcallee,
    Relation.ReflTransGen.cases_head_iff (a := i)]
  rw [eq_comm]

/-- The findings about an instance bear its name. -/
theorem function_of_findings {finding : CheckFault} (h : finding ∈ o.findings i) :
    finding.function = some i.name := by
  unfold findings at h
  split at h
  next => rw [List.mem_singleton.mp h, CheckFault.located]
  next =>
    obtain ⟨call, -, hcall⟩ := List.mem_filterMap.mp h
    obtain ⟨plain, -, rfl⟩ := Option.map_eq_some_iff.mp hcall
    rfl

end Oracle

/-- Among the errors of a search, those that bear the name of an instance are the findings about it,
if no other instance has this name. -/
theorem Discovery.Accounts.filter_errors {o : Oracle} {d : Discovery} (h : d.Accounts o)
    (hnodup : d.instances.Nodup) {i : Instance} (hi : i ∈ d.instances)
    (hnames : ∀ j ∈ d.instances, j.name = i.name → j = i) :
    d.errors.filter (fun finding => finding.function = some i.name) = o.findings i := by
  obtain ⟨before, after, hsplit⟩ := List.append_of_mem hi
  have hnew : i ∉ before ++ after := by
    rw [hsplit, List.nodup_middle] at hnodup
    exact (List.nodup_cons.mp hnodup).1
  have hothers : ∀ j ∈ before ++ after,
      (o.findings j).filter (fun finding => finding.function = some i.name) = [] := by
    intro j hj
    refine List.filter_eq_nil_iff.mpr fun finding hfinding => ?_
    rw [Oracle.function_of_findings hfinding, decide_eq_true_eq, Option.some.injEq]
    intro hname
    have hmem : j ∈ d.instances := by
      rw [hsplit, List.mem_append, List.mem_cons]
      exact (List.mem_append.mp hj).imp_right Or.inr
    exact hnew (hnames j hmem hname ▸ hj)
  have hown : (o.findings i).filter (fun finding => finding.function = some i.name) =
      o.findings i := by
    refine List.filter_eq_self.mpr fun finding hfinding => ?_
    rw [Oracle.function_of_findings hfinding, decide_eq_true_eq]
  have hbefore := List.flatMap_eq_nil_iff.mpr fun j hj => hothers j (List.mem_append_left _ hj)
  have hafter := List.flatMap_eq_nil_iff.mpr fun j hj => hothers j (List.mem_append_right _ hj)
  rw [h.errors, List.filter_flatMap, hsplit, List.flatMap_append, List.flatMap_cons, hbefore,
    hafter, hown, List.nil_append, List.append_nil]

/-- A search ends if everything that it can reach is on some list. -/
theorem Model.AnswersFrom.discover_ends_of_entered {σ : Type} {m : Model σ} {o : Oracle}
    {inv : σ → Prop} (hm : m.AnswersFrom o inv) (ho : o.NeverFatal) {roots entered : List Instance}
    (h : ∀ i, o.Reaches roots i → i ∈ entered) {s : σ} (hs : inv s) :
    ∃ fuel d next, (m.discover fuel roots).outcome s = (.ok d, next) := by
  have hfinite : {i | Discovery.Reaches o.edges roots i}.Finite :=
    (List.finite_toSet entered).subset fun i hi => h i (Oracle.reaches_iff.mp hi)
  obtain ⟨fuel, d, hsearch⟩ := Discovery.search_ends_iff.mpr hfinite
  obtain ⟨next, -, houtcome⟩ := hm.explore ho fuel (.start roots) hs
  rw [hsearch] at houtcome
  exact ⟨fuel, d, next, houtcome⟩

/-! ## Agreement -/

/-- What an inspection of the instance `e` knows agrees with a search from `e` that ended in `d`. -/
structure Program.Continues (p : Program) (e : Instance) (body : Body) (d : Discovery)
    (known : Inspection) : Prop where
  /-- The calls are what the direct calls of the body are resolved to, whatever was resolved
  before. Each callee is listed where it is called first. -/
  calls : ∃ callees,
    List.Forall₂ (fun call callee => ∀ q, p.Resolving q → (q.resolve call.1 call.2).1 = .ok callee)
      body.directCalls callees ∧ known.calls = callees.eraseDups
  /-- A search from the calls ends. -/
  ends : ∀ q, p.Resolving q → ∃ fuel below next,
    (Program.model.discover fuel known.calls).outcome q = (.ok below, next)
  /-- The instances of the search are `e` and what a search from the calls finds. -/
  instances : ∀ q, p.Resolving q → ∀ fuel below next,
    (Program.model.discover fuel known.calls).outcome q = (.ok below, next) →
      ∀ i, i ∈ d.instances ↔ i = e ∨ i ∈ below.instances
  /-- The types are those of the snapshot of the body. -/
  types : ∃ snapshot, body.check e.name = .ok snapshot ∧ known.types = snapshot.types

/-- The outcome of an inspection of the instance `e` agrees with a search from `e` that ended in
`d`. -/
structure Program.InspectionAgrees (p : Program) (e : Instance) (body : Body) (d : Discovery)
    (result : Except Fault Inspection) : Prop where
  /-- It fails with a finding exactly if the search has an error about `e`. -/
  fails_iff : (∃ finding, result = .error (.check finding)) ↔
    ∃ finding ∈ d.errors, finding.function = some e.name
  /-- This finding has the kind and the message of the first such error. -/
  first : ∀ finding, result = .error (.check finding) → ∃ reported,
    d.errors.find? (fun finding => finding.function = some e.name) = some reported ∧
      finding.kind = reported.kind ∧ finding.message = reported.message
  /-- Otherwise it completes. -/
  completes : (∀ finding, result ≠ .error (.check finding)) →
    ∃ known, result = .ok known ∧ p.Continues e body d known

namespace Source.Loaded

variable {l : Loader} {items : List (Spanned ItemTree)} {p : Program} {i : Instance}

/-- A call in the body of an instance that can be reached fails with a finding, if it fails. -/
theorem check_of_target_error (hp : Loaded l items p) {body : Body} (hfits : body.Fits)
    {site : CallSite} (hsite : site ∈ body.callSites) {fault : Fault}
    (h : p.oracle.target body.locals site.func = .error fault) :
    ∃ finding, fault = .check finding := by
  obtain ⟨ty, -, rfl | ⟨fn, tys, -, hresolve⟩⟩ := Oracle.target_error_of_site hfits hsite h
  · exact ⟨_, rfl⟩
  · obtain ⟨finding, rfl, -⟩ := hp.resolve_error hresolve
    exact ⟨finding, rfl⟩

/-- The instance of the entry point has a body. -/
theorem body_of_entry (hp : Loaded l items p) {entry : Item} (hfound : p.entry = some entry)
    (hentry : ¬ p.GenericEntry) :
    ∃ body, p.bodyOf ⟨entry.defId, []⟩ = .ok (some body) ∧ body.Fits := by
  obtain ⟨hmem, hkind⟩ := hp.registered.entry_item entry hfound
  obtain ⟨fn, hfn, hsome⟩ := hp.registered.fn_item entry hmem hkind
  obtain ⟨generic, hgeneric⟩ := Option.isSome_iff_exists.mp hsome
  have hnil : fn.generics = [] := by
    have hplain : ¬ fn.isGeneric = true := fun h => hentry ⟨entry, fn, hfound, hfn, h⟩
    simpa [FnDecl.isGeneric] using hplain
  have hlocal : fn.isExtern = false := by
    rw [← Bool.not_eq_true]
    intro hextern
    rw [hp.registered.extern_body hfn hextern] at hgeneric
    cases hgeneric
  have harity : (⟨entry.defId, []⟩ : Instance).args.length = fn.generics.length := by
    rw [hnil]
    rfl
  have hbody := Program.body_of_eq hfn harity
  rw [hlocal, hgeneric] at hbody
  exact ⟨_, hbody, (hp.fits hfn hgeneric).subst⟩

/-- An inspection gives what the oracle finds in the body of the entry instance. -/
theorem inspect_of_body (hp : Loaded l items p) {entry : Item} (hfound : p.entry = some entry)
    (hentry : ¬ p.GenericEntry) {body : Body}
    (hbody : p.bodyOf ⟨entry.defId, []⟩ = .ok (some body)) :
    Program.model.inspect.Gives p.InternedFrom (p.oracle.inspection body) :=
  hp.inspect_of_entry hfound (hp.item_root_of_entry hfound hentry)
    (hp.inspect_instance_of_body hbody
      (Inspection.of_body_answers (Program.answers_from_oracle hp.coherent) body))

/-- What an inspection knows when all calls of a root can be followed agrees with the search from
that root. -/
theorem continues_of_targets (hp : Loaded l items p) {body : Body}
    (hbody : p.bodyOf i = .ok (some body)) (hwalk : body.walk.stuck = none) {edges : List Edge}
    (htargets : List.Forall₂ (fun site edge => p.oracle.target body.locals site.func = .ok edge)
      body.callSites edges) {fuel : Nat} {d : Discovery}
    (hsearch : (Discovery.start [i]).search p.oracle.edges fuel = some d) :
    p.Continues i body d {
      types := (Snapshot.ofEvents body.walk.events).types
      calls := (edges.filterMap Edge.callee?).eraseDups } := by
  have hm := Program.answers_from_oracle hp.coherent
  have hinterned : ∀ {q}, p.Resolving q → p.InternedFrom q := fun hq =>
    .of_resolving hq hp.interned hp.coherent
  -- the calls that are listed are the callees of the oracle, so that the search splits there
  have hcalls : ∀ j, p.oracle.Reaches (edges.filterMap Edge.callee?).eraseDups j ↔
      p.oracle.Reaches (p.oracle.callees i) j := by
    intro j
    have hcallees : p.oracle.callees i = edges.filterMap Edge.callee? := by
      rw [← Oracle.callees_eq, Oracle.edges_of_targets hbody hwalk htargets]
    simp only [Oracle.Reaches, List.mem_eraseDups, hcallees]
  have hinstances : ∀ j, j ∈ d.instances ↔
      j = i ∨ p.oracle.Reaches (edges.filterMap Edge.callee?).eraseDups j := by
    intro j
    rw [Discovery.mem_instances_of_search hsearch, Oracle.reaches_iff,
      Oracle.reaches_singleton_iff, hcalls]
  refine ⟨⟨edges.filterMap Edge.callee?, ?_, rfl⟩, fun q hq => ?_, ?_, ?_⟩
  · refine (Oracle.direct_calls_of_targets htargets).imp fun call callee hresolve q hq => ?_
    rw [((hinterned hq).resolve hp.coherent.idempotent call.1 call.2).1, hresolve]
  · exact hm.discover_ends_of_entered p.oracle_never_fatal
      (fun j hj => (hinstances j).mpr (Or.inr hj)) (hinterned hq)
  · intro q hq more below next hbelow j
    rw [hinstances, ← Oracle.reaches_iff,
      Discovery.mem_instances_of_search (hm.search_of_explore (hinterned hq) hbelow)]
  · exact ⟨_, Body.check_of_walk hwalk i.name, rfl⟩

/-- The errors of a search from a root that bear its name are the findings about it. -/
theorem filter_errors_of_root (hp : Loaded l items p) (hlegible : p.Legible)
    (hroot : i ∈ p.auditRoots) {fuel : Nat} {d : Discovery}
    (hsearch : (Discovery.start [i]).search p.oracle.edges fuel = some d) :
    d.errors.filter (fun finding => finding.function = some i.name) = p.oracle.findings i := by
  obtain ⟨hfaithful, hpending⟩ := (Discovery.Faithful.start p.oracle.edges [i]).search hsearch
  have hi : i ∈ d.instances :=
    (hfaithful.mem_iff hpending i).mpr (.of_root (List.mem_singleton_self i))
  -- names tell instances apart because everything that is reached is legible
  have hall : ∀ j ∈ d.instances, j.Legible := by
    intro j hj
    obtain ⟨root, hmem, hpath⟩ := Oracle.reaches_iff.mp ((hfaithful.mem_iff hpending j).mp hj)
    rw [List.mem_singleton.mp hmem] at hpath
    exact hp.legible_of_reaches hlegible ⟨i, hroot, hpath⟩
  exact (hfaithful.accounts hpending).filter_errors hfaithful.nodup hi fun j hj hname =>
    (hall j hj).eq_of_name (hall i hi) hname

/-- An inspection of a root agrees with the search from that root. -/
theorem inspection_agrees (hp : Loaded l items p) (hlegible : p.Legible)
    (hroot : i ∈ p.auditRoots) {body : Body} (hbody : p.bodyOf i = .ok (some body))
    (hfits : body.Fits) {fuel : Nat} {d : Discovery}
    (hsearch : (Discovery.start [i]).search p.oracle.edges fuel = some d) :
    p.InspectionAgrees i body d (p.oracle.inspection body) := by
  have herrors := hp.filter_errors_of_root hlegible hroot hsearch
  have hmem : (∃ finding ∈ d.errors, finding.function = some i.name) ↔
      p.oracle.findings i ≠ [] := by
    rw [← herrors]
    simp [List.filter_eq_nil_iff]
  rw [Oracle.inspection_of_walk hfits.walk]
  rcases htargets : body.callSites.mapM fun site =>
    p.oracle.target body.locals site.func with fault | edges <;> rw [htargets]
  · obtain ⟨site, hsite, htarget, rest, hfindings⟩ :=
      Oracle.findings_of_error hbody hfits.walk htargets
    obtain ⟨finding, rfl⟩ := hp.check_of_target_error hfits hsite htarget
    have hsome : p.oracle.findings i ≠ [] := by
      rw [hfindings]
      exact List.cons_ne_nil _ _
    change p.InspectionAgrees i body d (.error (.check finding))
    refine ⟨iff_of_true ⟨finding, rfl⟩ (hmem.mpr hsome), ?_, ?_⟩
    · rintro _ ⟨⟩
      refine ⟨finding.located i.name (some site.block), ?_, rfl, rfl⟩
      rw [← List.head?_filter, herrors, hfindings]
      rfl
    · exact fun hcompletes => absurd rfl (hcompletes finding)
  · have hall := Outcome.map_m_eq_ok.mp htargets
    have hnone := Oracle.findings_of_targets hbody hfits.walk hall
    have hcontinues := hp.continues_of_targets hbody hfits.walk hall hsearch
    dsimp only [Except.map]
    exact ⟨iff_of_false nofun fun h => hmem.mp h hnone, nofun, fun _ => ⟨_, rfl, hcontinues⟩⟩

end Source.Loaded

/-- In a program that was read from a text, and whose entry point has no type parameters, whatever
was resolved before: if a search from the entry instance ends, an inspection agrees with it. -/
theorem inspection_of_text {file : Option String} {text : List Char} {p : Program}
    (h : loadText file text = .ok p) {entry : Item} (hfound : p.entry = some entry)
    (hentry : ¬ p.GenericEntry) :
    ∃ e body, (∀ q, p.Resolving q → (q.instanceOf entry).1 = .ok (some e)) ∧
      p.bodyOf e = .ok (some body) ∧
      ∀ s, p.Resolving s → ∀ fuel d next,
        (Program.model.discover fuel [e]).outcome s = (.ok d, next) →
          ∀ q, p.Resolving q →
            p.InspectionAgrees e body d (Program.model.inspect.execute q).1 := by
  obtain ⟨items, l, hp, -, hlegible⟩ := legible_of_text h
  have hinterned : ∀ {q}, p.Resolving q → p.InternedFrom q := fun hq =>
    .of_resolving hq hp.interned hp.coherent
  have hroot := hp.item_root_of_entry hfound hentry
  have hmem : ⟨entry.defId, []⟩ ∈ p.auditRoots := by
    rw [Program.auditRoots, Program.mem_foldl_add_root, hfound, Option.bind_some, hroot]
    exact Or.inl (List.mem_singleton_self _)
  obtain ⟨body, hbody, hfits⟩ := hp.body_of_entry hfound hentry
  refine ⟨⟨entry.defId, []⟩, body, fun q hq => ?_, hbody, ?_⟩
  · have hinstance := (Program.instance_of_answers hp.coherent entry q (hinterned hq)).1
    rwa [hp.item_instance, hroot] at hinstance
  · intro s hs fuel d next houtcome q hq
    have hsearch :=
      (Program.answers_from_oracle hp.coherent).search_of_explore (hinterned hs) houtcome
    have hresult : (Program.model.inspect.execute q).1 = p.oracle.inspection body :=
      (hp.inspect_of_body hfound hentry hbody {} q (hinterned hq)).1
    rw [hresult]
    exact hp.inspection_agrees hlegible hmem hbody hfits hsearch

/-- The entry point calls one function twice, in between another one and a function pointer. -/
def relayText : String :=
  "fn finish() \x7b
    let _0: ();
    bb0: \x7b return; \x7d
\x7d
fn relay<T>() \x7b
    let _0: ();
    bb0: \x7b call _0 = fndef finish() -> bb1; \x7d
    bb1: \x7b return; \x7d
\x7d
fn start() \x7b
    let _0: ();
    bb0: \x7b return; \x7d
\x7d
entry fn main() \x7b
    let _0: ();
    let _1: fn() -> ();
    bb0: \x7b call _0 = fndef relay<()>() -> bb1; \x7d
    bb1: \x7b call _0 = copy _1() -> bb2; \x7d
    bb2: \x7b call _0 = fndef start() -> bb3; \x7d
    bb3: \x7b call _0 = fndef relay<()>() -> bb4; \x7d
    bb4: \x7b return; \x7d
\x7d
"

/-- The entry point calls a function, and then a slot that holds none and a method of a trait that
is implemented for no type. -/
def strayText : String :=
  "trait Meow \x7b fn meow(&Self); \x7d
fn start() \x7b
    let _0: ();
    bb0: \x7b return; \x7d
\x7d
entry fn main() \x7b
    let _0: ();
    let _1: &u8;
    bb0: \x7b call _0 = fndef start() -> bb1; \x7d
    bb1: \x7b call _0 = fndef Meow::meow<u8>(copy _1) -> bb2; \x7d
    bb2: \x7b call _0 = copy _0() -> bb3; \x7d
    bb3: \x7b return; \x7d
\x7d
"

/-- The instance of the entry point of either text. -/
def Instance.main : Instance :=
  ⟨⟨"main", "main"⟩, []⟩

/-- The instance of `relay` for unit. -/
def Instance.relay : Instance :=
  ⟨⟨"main", "relay"⟩, [.unit]⟩

/-- The instance of `start`. -/
def Instance.start : Instance :=
  ⟨⟨"main", "start"⟩, []⟩

/-- The entry point has no type parameters, and its instance is this one. -/
def Program.entersMain (p : Program) : Bool :=
  p.entry.any fun entry =>
    (p.instanceOf entry).1 = .ok (some .main) ∧ (p.fnDecl entry.defId).all fun fn => !fn.isGeneric

theorem Program.entry_of_enters_main {p : Program} (h : p.entersMain = true) :
    ∃ entry, p.entry = some entry ∧ ¬ p.GenericEntry ∧
      (p.instanceOf entry).1 = .ok (some .main) := by
  rw [Program.entersMain, Option.any_eq_true] at h
  obtain ⟨entry, hfound, hmain⟩ := h
  rw [decide_eq_true_eq] at hmain
  refine ⟨entry, hfound, fun hgeneric => ?_, hmain.1⟩
  obtain ⟨other, fn, hother, hfn, hgeneric⟩ := hgeneric
  obtain rfl := Option.some.inj (hfound.symm.trans hother)
  simp [hfn, hgeneric] at hmain

/-- What a search from the entry point of `relayText` finds, and what its direct calls lead to. -/
def Program.isRelaying (p : Program) : Bool :=
  p.entersMain ∧
    (((Program.model.discover 9 [.main]).outcome p).1.toOption.any fun d =>
      d.errors = [] ∧ d.instances.map Instance.name =
        ["main::main", "main::relay::<()>", "main::finish", "main::start"]) ∧
    ((p.bodyOf .main).toOption.join.any fun body =>
      body.directCalls.map (fun call => (p.resolve call.1 call.2).1) =
        [.ok .relay, .ok .start, .ok .relay])

/-- What a search from the entry point of `strayText` finds. -/
def Program.isStraying (p : Program) : Bool :=
  p.entersMain ∧
    (((Program.model.discover 9 [.main]).outcome p).1.toOption.any fun d =>
      (d.errors.find? fun finding => finding.function = some Instance.main.name).map
        CheckFault.message = some "missing implementation of `main::Meow::meow` for `u8`")

set_option maxRecDepth 20000 in
/-- An inspection of the program of `relayText` lists the two functions that are called, and the
search goes on to the one below them. An inspection of the program of `strayText` fails at the call
of the method, which is the first error of the search. -/
theorem inspection_of_text_relay :
    (∃ p d known, loadText none relayText.toList = .ok p ∧
      ((Program.model.discover 9 [.main]).outcome p).1 = .ok d ∧
      d.instances.map Instance.name =
        ["main::main", "main::relay::<()>", "main::finish", "main::start"] ∧
      (Program.model.inspect.execute p).1 = .ok known ∧
      known.calls = [.relay, .start] ∧
      ∃ body, p.Continues .main body d known) ∧
    ∃ p finding, loadText none strayText.toList = .ok p ∧
      (Program.model.inspect.execute p).1 = .error (.check finding) ∧
      finding.message = "missing implementation of `main::Meow::meow` for `u8`" := by
  constructor
  · obtain ⟨p, hload, hrelaying⟩ :
        ∃ p, loadText none relayText.toList = .ok p ∧ p.isRelaying = true :=
      exists_of_load_chars (by decide +kernel)
    simp only [Program.isRelaying, Bool.decide_and, Bool.and_eq_true, decide_eq_true_eq]
      at hrelaying
    obtain ⟨henters, hsearch, hdirect⟩ := hrelaying
    obtain ⟨entry, hfound, hentry, hinstance⟩ := Program.entry_of_enters_main henters
    obtain ⟨d, hd, hfinds⟩ := Outcome.exists_of_any hsearch
    obtain ⟨e, body, he, hbody, hagrees⟩ := inspection_of_text hload hfound hentry
    obtain rfl : e = .main := by simpa [he p .refl] using hinstance
    simp only [Bool.and_eq_true, decide_eq_true_eq] at hfinds
    obtain ⟨hnone, hnames⟩ := hfinds
    obtain ⟨hfails, -, hcompletes⟩ := hagrees p .refl 9 d _ (Prod.ext hd rfl) p .refl
    obtain ⟨known, hknown, hcontinues⟩ := hcompletes fun finding hfinding => by
      obtain ⟨other, hother, -⟩ := hfails.mp ⟨finding, hfinding⟩
      rw [hnone] at hother
      exact absurd hother List.not_mem_nil
    refine ⟨p, d, known, hload, hd, hnames, hknown, ?_, body, hcontinues⟩
    obtain ⟨callees, hall, hcalls⟩ := hcontinues.calls
    have hresolved : List.Forall₂ (· = ·)
        (body.directCalls.map fun call => (p.resolve call.1 call.2).1)
        (callees.map Except.ok) := by
      rw [List.forall₂_map_left_iff, List.forall₂_map_right_iff]
      exact hall.imp fun call callee h => h p .refl
    rw [hbody] at hdirect
    rw [List.forall₂_eq_eq_eq, of_decide_eq_true hdirect] at hresolved
    obtain rfl : [.relay, .start, .relay] = callees :=
      List.map_injective_iff.mpr (fun _ _ => Except.ok.inj) hresolved
    rw [hcalls]
    rfl
  · obtain ⟨p, hload, hstraying⟩ :
        ∃ p, loadText none strayText.toList = .ok p ∧ p.isStraying = true :=
      exists_of_load_chars (by decide +kernel)
    simp only [Program.isStraying, Bool.decide_and, Bool.and_eq_true, decide_eq_true_eq]
      at hstraying
    obtain ⟨henters, hsearch⟩ := hstraying
    obtain ⟨entry, hfound, hentry, hinstance⟩ := Program.entry_of_enters_main henters
    obtain ⟨d, hd, hfinds⟩ := Outcome.exists_of_any hsearch
    obtain ⟨e, body, he, hbody, hagrees⟩ := inspection_of_text hload hfound hentry
    obtain rfl : e = .main := by simpa [he p .refl] using hinstance
    obtain ⟨hfails, hfirst, -⟩ := hagrees p .refl 9 d _ (Prod.ext hd rfl) p .refl
    obtain ⟨reported, hreported, hmessage⟩ := Option.map_eq_some_iff.mp (of_decide_eq_true hfinds)
    have hfunction := List.find?_some hreported
    rw [decide_eq_true_eq] at hfunction
    obtain ⟨finding, hfinding⟩ :=
      hfails.mpr ⟨reported, List.mem_of_find?_eq_some hreported, hfunction⟩
    obtain ⟨other, hother, -, hsame⟩ := hfirst finding hfinding
    obtain rfl := Option.some.inj (hreported.symm.trans hother)
    exact ⟨p, finding, hload, hfinding, hsame.trans hmessage⟩

end MirAudit
