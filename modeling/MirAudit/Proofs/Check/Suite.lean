import MirAudit.Proofs.Check.Audit
import MirAudit.Proofs.Check.Checks

/-!
# The verdicts of an audit

`audit_of_text` gives the whole outcome of an audit of an accepted text. An entry point with type
parameters ends the audit before any check. Otherwise, when the search ends, every verdict is known:
all checks succeed, except that the search fails over a call that cannot be followed, and the check
of the traits over an impl of a trait that is not declared.
-/

namespace MirAudit

/-- The verdict is a failure if `bad` holds and a success if it does not; it is never a panic. -/
def Verdict.FailsIff (v : Verdict) (bad : Prop) : Prop :=
  v = .ok ∧ ¬ bad ∨ (∃ fault, v = .failed fault) ∧ bad

/-- The results of an audit that has reached `instances`. -/
def Model.auditResults (config : RunConfig) (instances : List Instance)
    (search traits : Verdict) : List CheckResult :=
  [⟨"test_entry_fn", .ok⟩, ⟨"test_all_fns", .ok⟩, ⟨"test_crates", .ok⟩,
      ⟨"test_instances", search⟩]
    ++ instances.map (fun i => ⟨Model.bodyCheckName i, .ok⟩)
    ++ if config.fixme then [⟨"test_traits", traits⟩] else []

/-- A search succeeds exactly if it has no findings. -/
theorem Discovery.verdict_fails_iff (d : Discovery) : d.verdict.FailsIff (d.errors ≠ []) := by
  unfold Discovery.verdict
  rcases herrors : d.errors with _ | ⟨first, _ | ⟨second, rest⟩⟩
  · exact Or.inl ⟨rfl, fun h => h rfl⟩
  · exact Or.inr ⟨⟨first, rfl⟩, List.cons_ne_nil _ _⟩
  · exact Or.inr ⟨⟨_, rfl⟩, List.cons_ne_nil _ _⟩

namespace Source.Loaded

variable {l : Loader} {items : List (Spanned ItemTree)} {p : Program} {d : Discovery}
  {fuel : Nat}

/-- A search that ends has findings exactly if something that is reached has a broken call. -/
theorem errors_ne_nil_iff (hp : Loaded l items p)
    (hd : (Discovery.start p.auditRoots).search p.oracle.edges fuel = some d) :
    d.errors ≠ [] ↔ ∃ i, p.oracle.Reaches p.auditRoots i ∧ p.oracle.HasBrokenCall i := by
  obtain ⟨hfaithful, -⟩ := (Discovery.Faithful.start p.oracle.edges p.auditRoots).search hd
  have hreached : ∀ i, i ∈ d.instances ↔ p.oracle.Reaches p.auditRoots i := fun i => by
    rw [Discovery.mem_instances_of_search hd, Oracle.reaches_iff]
  rw [hfaithful.errors, ne_eq, List.flatMap_eq_nil_iff]
  simp only [List.filterMap_eq_nil_iff, ← Option.not_isSome_iff_eq_none, not_forall, not_not]
  constructor
  · intro h
    obtain ⟨i, hi, edge, hedge, hfault⟩ := h
    exact ⟨i, (hreached i).mp hi, (hp.findings_iff ((hreached i).mp hi)).mp ⟨edge, hedge, hfault⟩⟩
  · intro h
    obtain ⟨i, hi, hbroken⟩ := h
    obtain ⟨edge, hedge, hfault⟩ := (hp.findings_iff hi).mpr hbroken
    exact ⟨i, (hreached i).mpr hi, edge, hedge, hfault⟩

theorem discovery_does (hp : Loaded l items p) (config : RunConfig)
    (hd : (Discovery.start p.auditRoots).search p.oracle.edges fuel = some d) :
    (Program.model.auditDiscovery config fuel p.auditRoots).Does p.InternedFrom d fun session =>
      (session.note config (d.progressLine p.auditRoots)).record config "test_instances"
        d.verdict := by
  have hsearch : (Audit.ofRun (Program.model.discover fuel p.auditRoots)).Does
      p.InternedFrom d id := by
    refine .of_run fun q hq => ?_
    have houtcome := hp.discover_outcome hq fuel
    rwa [hd] at houtcome
  unfold Model.auditDiscovery
  refine .congr (.bind hsearch (.bind (.update _) (.bind (.update _) (.pure d)))) ?_
  exact fun session => rfl

/-- The checks in front of the search succeed. -/
theorem first_checks_do (hp : Loaded l items p) (config : RunConfig) :
    (Audit.checkAll config
      [("test_entry_fn", Program.model.checkEntry), ("test_all_fns", Program.model.checkBodies),
        ("test_crates", Program.model.checkCrates)]).Does p.InternedFrom () fun session =>
      session.recordOk config ["test_entry_fn", "test_all_fns", "test_crates"] := by
  refine .check_all fun c hc => ?_
  simp only [List.mem_cons, List.not_mem_nil, or_false] at hc
  rcases hc with rfl | rfl | rfl
  · exact hp.check_entry_answer
  · exact hp.check_bodies_answer
  · exact hp.check_crates_answer

/-- The checks of the instances that a search has found succeed. -/
theorem body_checks_do (hp : Loaded l items p) (config : RunConfig)
    (hd : (Discovery.start p.auditRoots).search p.oracle.edges fuel = some d) :
    (Audit.checkAll config
      (d.instances.map fun i => (Model.bodyCheckName i, Program.model.checkInstance i))).Does
      p.InternedFrom () fun session =>
        session.recordOk config (d.instances.map Model.bodyCheckName) := by
  refine .congr (.check_all fun c hc => ?_) fun session => ?_
  · obtain ⟨i, hi, rfl⟩ := List.mem_map.mp hc
    refine hp.check_instance_answer ?_
    rw [← Oracle.reaches_iff, ← Discovery.mem_instances_of_search hd]
    exact hi
  · rw [List.map_map]
    rfl

/-- The check of the traits gives a verdict, if it is made. -/
theorem last_check_does (hp : Loaded l items p) (config : RunConfig) :
    ∃ traits : Verdict, traits.FailsIff p.HasUndeclaredTrait ∧
      (∀ fault, traits = .failed fault → p.ReportsUndeclared fault) ∧
      (do
        if config.fixme then Audit.check config "test_traits" Program.model.checkTraits
        Audit.update fun session => session.finish config : Audit Program Unit).Does
      p.InternedFrom () fun session =>
        (if config.fixme then session.record config "test_traits" traits
          else session).finish config := by
  obtain ⟨traits, htraits, hreports, hcheck⟩ : ∃ traits : Verdict,
      traits.FailsIff p.HasUndeclaredTrait ∧
      (∀ fault, traits = .failed fault → p.ReportsUndeclared fault) ∧
      (Audit.check config "test_traits" Program.model.checkTraits).Does p.InternedFrom ()
        fun session => session.record config "test_traits" traits := by
    rcases hp.check_traits_answer with
      ⟨hpasses, hdeclared⟩ | ⟨⟨finding, hreports, hfails⟩, hundeclared⟩
    · exact ⟨.ok, Or.inl ⟨rfl, hdeclared⟩, nofun, .check hpasses rfl⟩
    · refine ⟨.failed finding, Or.inr ⟨⟨finding, rfl⟩, hundeclared⟩, ?_, .check hfails rfl⟩
      rintro _ ⟨⟩
      exact hreports
  refine ⟨traits, htraits, hreports, ?_⟩
  cases config.fixme with
  | true => exact .congr (.bind hcheck (.update _)) fun session => rfl
  | false => exact .congr (.bind (.pure _) (.update _)) fun session => rfl

/-- With an entry point that has type parameters, every audit halts at its roots and records
nothing. -/
theorem audit_halts (hp : Loaded l items p) (hentry : p.GenericEntry) :
    ∃ message, ∀ q, p.InternedFrom q →
      ∃ next, Program.model.roots.ask q = (.error (.setup message), next) ∧
        ∀ config fuel, (Program.model.audit config fuel).execute q =
          (some (.fault (.setup message)), {}, next) := by
  obtain ⟨message, hroots⟩ := hp.roots_answer_generic hentry
  refine ⟨message, fun q hq => ?_⟩
  have hask : Program.model.roots.ask q =
      (.error (.setup message), (Program.model.roots.ask q).2) :=
    Prod.ext (hroots q hq).1 rfl
  exact ⟨_, hask, fun _ _ => Audit.execute_of_error hask⟩

/-- An audit of a loaded program records the verdicts, if its search ends. -/
theorem audit_does (hp : Loaded l items p) (config : RunConfig) (hentry : ¬ p.GenericEntry)
    (hd : (Discovery.start p.auditRoots).search p.oracle.edges fuel = some d) :
    ∃ traits change, traits.FailsIff p.HasUndeclaredTrait ∧
      (∀ fault, traits = .failed fault → p.ReportsUndeclared fault) ∧
      (Program.model.audit config fuel).Does p.InternedFrom () change ∧
      (change {}).report.results = Model.auditResults config d.instances d.verdict traits := by
  obtain ⟨traits, htraits, hreports, hlast⟩ := hp.last_check_does config
  have hroots := Audit.Does.of_query (hp.roots_answer hentry)
  have hfirst := hp.first_checks_do config
  have hsearch := hp.discovery_does config hd
  have hbodies := hp.body_checks_do config hd
  refine ⟨traits, _, htraits, hreports,
    .bind hroots (.bind hfirst (.bind hsearch (.bind hbodies hlast))), ?_⟩
  simp only [Function.comp_apply, id, Session.report_finish]
  unfold Model.auditResults
  cases config.fixme with
  | true => simp [Session.results_record_ok, Session.results_record]
  | false => simp [Session.results_record_ok, Session.results_record]

/-- The outcome of an audit of a loaded program whose search ends. -/
theorem audit_outcome (hp : Loaded l items p) (config : RunConfig) (hentry : ¬ p.GenericEntry)
    {q next : Program} (hq : p.InternedFrom q)
    (hdiscover : (Program.model.discover fuel p.auditRoots).outcome q = (.ok d, next)) :
    ∃ session last search traits,
      (Program.model.audit config fuel).execute p = (none, session, last) ∧
      session.report.results = Model.auditResults config d.instances search traits ∧
      d.instances.Nodup ∧ (∀ i, i ∈ d.instances ↔ p.oracle.Reaches p.auditRoots i) ∧
      search.FailsIff (∃ i, p.oracle.Reaches p.auditRoots i ∧ p.oracle.HasBrokenCall i) ∧
      traits.FailsIff p.HasUndeclaredTrait := by
  -- the model finds what the search over the edges of the oracle finds
  have hd : (Discovery.start p.auditRoots).search p.oracle.edges fuel = some d := by
    obtain ⟨other, -, houtcome⟩ := hp.discover_outcome hq fuel
    rw [hdiscover] at houtcome
    split at houtcome
    next found hfound =>
      cases houtcome
      exact hfound
    next => cases houtcome
  obtain ⟨hfaithful, -⟩ := (Discovery.Faithful.start p.oracle.edges p.auditRoots).search hd
  obtain ⟨traits, change, htraits, -, hdoes, hresults⟩ := hp.audit_does config hentry hd
  obtain ⟨last, hexecute⟩ := hdoes.execute (.start hp.interned)
  refine ⟨change {}, last, d.verdict, traits, hexecute, hresults, hfaithful.nodup, ?_, ?_,
    htraits⟩
  · intro i
    rw [Discovery.mem_instances_of_search hd, Oracle.reaches_iff]
  · have hverdict := d.verdict_fails_iff
    rwa [Verdict.FailsIff, hp.errors_ne_nil_iff hd] at hverdict

end Source.Loaded

/-- What an audit of an accepted text does. The roots cannot be found exactly if the entry point
has type parameters, and the audit then halts before any check. Otherwise an audit whose search ends
has a verdict for each check and for each instance that is reached. None of them is a panic, and
only the search and the traits can fail: the search over a call that cannot be followed, the traits
over an impl of a trait that is not declared. -/
theorem audit_of_text {file : Option String} {text : List Char} {p : Program}
    (hload : Source.loadText file text = .ok p) (config : RunConfig) :
    ((∃ fault q, Program.model.roots.ask p = (.error fault, q)) ↔ p.GenericEntry) ∧
    (p.GenericEntry → ∃ message, ∀ fuel, ∃ q,
      (Program.model.audit config fuel).execute p = (some (.fault (.setup message)), {}, q)) ∧
    (¬ p.GenericEntry → ∃ q, Program.model.roots.ask p = (.ok p.auditRoots, q) ∧
      ∀ fuel d next, (Program.model.discover fuel p.auditRoots).outcome q = (.ok d, next) →
        ∃ session last search traits,
          (Program.model.audit config fuel).execute p = (none, session, last) ∧
          session.report.results = Model.auditResults config d.instances search traits ∧
          d.instances.Nodup ∧
          (∀ i, i ∈ d.instances ↔ p.oracle.Reaches p.auditRoots i) ∧
          search.FailsIff
            (∃ i, p.oracle.Reaches p.auditRoots i ∧ p.oracle.HasBrokenCall i) ∧
          traits.FailsIff p.HasUndeclaredTrait) := by
  obtain ⟨items, l, -, -, hp⟩ := Source.loaded_of_text hload
  have hinterned : p.InternedFrom p := .start hp.interned
  -- the roots are asked for in front of every check
  by_cases hentry : p.GenericEntry
  · obtain ⟨message, hhalts⟩ := hp.audit_halts hentry
    obtain ⟨next, hask, hexecute⟩ := hhalts p hinterned
    exact ⟨⟨fun _ => hentry, fun _ => ⟨_, _, hask⟩⟩,
      fun _ => ⟨message, fun fuel => ⟨next, hexecute config fuel⟩⟩, absurd hentry⟩
  · obtain ⟨hroots, hnext⟩ := hp.roots_answer hentry p hinterned
    have hask : Program.model.roots.ask p = (.ok p.auditRoots, (Program.model.roots.ask p).2) :=
      Prod.ext hroots rfl
    refine ⟨⟨?_, fun h => absurd h hentry⟩, fun h => absurd h hentry, fun _ => ⟨_, hask, ?_⟩⟩
    · intro h
      obtain ⟨fault, q, herror⟩ := h
      rw [herror] at hroots
      cases hroots
    · intro fuel d next hdiscover
      exact hp.audit_outcome config hentry hnext hdiscover

/-- A shop that calls a function that does not exist, with an impl of a trait that does not. -/
def shopText : String :=
  "impl Priced for i32 \x7b \x7d
fn sell() \x7b
    let _0: ();
    bb0: \x7b return; \x7d
\x7d
entry fn main() \x7b
    let _0: ();
    bb0: \x7b call _0 = fndef sell() -> bb1; \x7d
    bb1: \x7b call _0 = fndef refund() -> bb2; \x7d
    bb2: \x7b return; \x7d
\x7d
"

/-- The instances that the search of the shop finds, if it ends within nine steps. -/
def Program.shopInstances (p : Program) : List Instance :=
  match Program.model.roots.ask p with
  | (.ok roots, q) =>
    match (Program.model.discover 9 roots).outcome q with
    | (.ok d, _) => d.instances
    | _ => []
  | _ => []

set_option maxRecDepth 20000 in
/-- The audit of the shop names its checks in order. -/
theorem audit_of_shop :
    ∃ p session last, Source.loadText none shopText.toList = .ok p ∧
      (Program.model.audit { fixme := true } 9).execute p = (none, session, last) ∧
      session.report.results.map CheckResult.name =
        ["test_entry_fn", "test_all_fns", "test_crates", "test_instances",
          "test_body[main::main]", "test_body[main::sell]", "test_traits"] := by
  obtain ⟨p, hload, hinstances⟩ : ∃ p, Source.loadText none shopText.toList = .ok p ∧
      decide (p.shopInstances = [⟨⟨"main", "main"⟩, []⟩, ⟨⟨"main", "sell"⟩, []⟩]) = true :=
    Source.exists_of_load_chars (by decide +kernel)
  replace hinstances := of_decide_eq_true hinstances
  obtain ⟨hgeneric, -, haudit⟩ := audit_of_text hload { fixme := true }
  unfold Program.shopInstances at hinstances
  have hentry : ¬ p.GenericEntry := by
    intro h
    obtain ⟨fault, q, hask⟩ := hgeneric.mpr h
    rw [hask] at hinstances
    cases hinstances
  obtain ⟨q, hask, hends⟩ := haudit hentry
  rw [hask] at hinstances
  rcases hdiscover : (Program.model.discover 9 p.auditRoots).outcome q with ⟨halt | d, next⟩
  · simp only [hdiscover] at hinstances
    cases hinstances
  · simp only [hdiscover] at hinstances
    obtain ⟨session, last, search, traits, hexecute, hresults, -⟩ := hends 9 d next hdiscover
    refine ⟨p, session, last, hload, hexecute, ?_⟩
    have hnames : [⟨⟨"main", "main"⟩, []⟩, ⟨⟨"main", "sell"⟩, []⟩].map Model.bodyCheckName =
        ["test_body[main::main]", "test_body[main::sell]"] := by decide +kernel
    rw [hresults, hinstances]
    simpa [Model.auditResults] using hnames

end MirAudit
