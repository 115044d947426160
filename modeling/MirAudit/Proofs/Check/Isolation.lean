import MirAudit.Proofs.Check.Audit
import MirAudit.Proofs.Check.Questions
import MirAudit.Proofs.Discovery.Closure
import MirAudit.Proofs.Text.Lines

/-!
# Checks in isolation

Any query of a model may fail. `audit_isolated` says what becomes of it: a setup fault that a query
raises halts the audit, any other fault stays within the check that asks, and the checks behind it
are made as if it had not happened. What a search found is kept, whatever its own verdict. The
verdict on a check depends on the answers to its own questions, and on the search for which
instances there are to check.

`Audit.Records` is the logic in which this is shown: it says what an audit adds to the report, or
why it halts.
-/

namespace MirAudit

/-- The checks of an audit. -/
inductive SuiteCheck where
  | entryFn
  | allFns
  | crates
  | instances
  | body (i : Instance)
  | traits
deriving DecidableEq

namespace SuiteCheck

/-- The name of a check in a report. -/
def name : SuiteCheck → String
  | .entryFn => "test_entry_fn"
  | .allFns => "test_all_fns"
  | .crates => "test_crates"
  | .instances => "test_instances"
  | .body i => Model.bodyCheckName i
  | .traits => "test_traits"

/-- The checks of an audit that finds some instances, in order. -/
def all (config : RunConfig) (instances : List Instance) : List SuiteCheck :=
  [.entryFn, .allFns, .crates, .instances] ++ instances.map .body
    ++ if config.fixme then [.traits] else []

/-- The query of a check; the check of the instances is a search instead. -/
def query? {σ : Type} (m : Model σ) : SuiteCheck → Option (Query σ Unit)
  | .entryFn => some m.checkEntry
  | .allFns => some m.checkBodies
  | .crates => some m.checkCrates
  | .instances => none
  | .body i => some (m.checkInstance i)
  | .traits => some m.checkTraits

end SuiteCheck

namespace Replies

/-- The verdict on a check, where the search has ended with `d`. -/
def verdict (r : Replies) (d : Discovery) (c : SuiteCheck) : Except Fault Verdict :=
  match c.query? r.model with
  | some q => Verdict.ofOutcome (q.ask []).1
  | none => .ok d.verdict

/-- The questions that a check asks, where the search starts at `roots`. -/
def askedBy (r : Replies) (fuel : Nat) (roots : List Instance) (c : SuiteCheck) : List Question :=
  match c.query? r.model with
  | some q => (q.ask []).2
  | none => ((r.model.discover fuel roots).outcome []).2

/-- The name and the query are those of the check. -/
def Makes (r : Replies) (c : SuiteCheck) (made : String × Query (List Question) Unit) : Prop :=
  made.1 = c.name ∧ c.query? r.model = some made.2

/-- The result is that of the check. -/
def Gives (r : Replies) (d : Discovery) (c : SuiteCheck) (result : CheckResult) : Prop :=
  result.name = c.name ∧ r.verdict d c = .ok result.verdict

end Replies

/-! ## What an audit adds to the report -/

variable {α β : Type} {r r' : Replies} {cut : Prop}

/-- From any session, the audit adds some results that satisfy `post`. Or it halts: it is cut off,
or a question that it asks raises a setup fault. -/
def Audit.Records (r : Replies) (cut : Prop) (a : Audit (List Question) α)
    (post : α → List CheckResult → Prop) : Prop :=
  ∀ session before,
    (∃ x results after asked, a.outcome session before = ((.ok x, after), before ++ asked) ∧
      after.report.results = session.report.results ++ results ∧ post x results) ∨
    ∃ halt after asked, a.outcome session before = ((.error halt, after), before ++ asked) ∧
      (halt = .outOfFuel ∧ cut ∨
        ∃ message, halt = .fault (.setup message) ∧ r.Raises asked message)

namespace Audit.Records

theorem pure (a : α) : (Pure.pure a : Audit (List Question) α).Records r cut fun x results =>
    x = a ∧ results = [] := by
  intro session before
  refine Or.inl ⟨a, [], session, [], ?_, (List.append_nil _).symm, rfl, rfl⟩
  rw [List.append_nil]
  rfl

/-- Notes do not show in the report. -/
theorem update {change : Session → Session} {more : List CheckResult}
    (h : ∀ session, (change session).report.results = session.report.results ++ more) :
    (Audit.update change : Audit (List Question) Unit).Records r cut fun _ results =>
      results = more := by
  intro session before
  refine Or.inl ⟨(), more, change session, [], ?_, h session, rfl⟩
  rw [List.append_nil]
  rfl

theorem mono {a : Audit (List Question) α} {post post' : α → List CheckResult → Prop}
    (ha : a.Records r cut post) (h : ∀ x results, post x results → post' x results) :
    a.Records r cut post' := by
  intro session before
  rcases ha session before with ⟨x, results, after, asked, ho, hresults, hpost⟩ | hhalt
  · exact Or.inl ⟨x, results, after, asked, ho, hresults, h x results hpost⟩
  · exact Or.inr hhalt

theorem bind {a : Audit (List Question) α} {f : α → Audit (List Question) β}
    {first : α → List CheckResult → Prop} {post : β → List CheckResult → Prop}
    (ha : a.Records r cut first)
    (hf : ∀ x results, first x results →
      (f x).Records r cut fun y more => post y (results ++ more)) :
    Records r cut (a >>= f) post := by
  intro session before
  rcases ha session before with ⟨x, results, middle, asked, ho, hresults, hfirst⟩ |
    ⟨halt, after, asked, ho, hhalt⟩
  · rcases hf x results hfirst middle (before ++ asked) with
      ⟨y, more, after, further, ho', hmore, hpost⟩ | ⟨halt, after, further, ho', hhalt⟩
    · refine Or.inl ⟨y, results ++ more, after, asked ++ further, ?_, ?_, hpost⟩
      · rw [outcome_bind, ho, ← List.append_assoc]
        exact ho'
      · rw [hmore, hresults, List.append_assoc]
    · refine Or.inr ⟨halt, after, asked ++ further, ?_, hhalt.imp_right ?_⟩
      · rw [outcome_bind, ho, ← List.append_assoc]
        exact ho'
      · rintro ⟨message, rfl, hraises⟩
        exact ⟨message, rfl, hraises.mono (List.subset_append_right _ _)⟩
  · exact Or.inr ⟨halt, after, asked, by rw [outcome_bind, ho], hhalt⟩

/-- A check adds the verdict on its outcome, unless one of its questions raises a setup fault. -/
theorem check {config : RunConfig} {name : String} {q : Query (List Question) Unit}
    (hq : q.Heeds r r Fault.Harmless q) :
    (Audit.check config name q).Records r cut fun _ results =>
      ∃ verdict, Verdict.ofOutcome (q.ask []).1 = .ok verdict ∧ results = [⟨name, verdict⟩] := by
  obtain ⟨answer, asked, hasks, hfault, -⟩ := hq
  have hempty : (q.ask []).1 = answer := by rw [hasks []]
  intro session before
  rw [outcome_check, hasks before, hempty]
  cases hverdict : Verdict.ofOutcome answer with
  | ok verdict =>
      exact Or.inl ⟨(), _, _, asked, rfl, Session.results_record session config name verdict,
        verdict, rfl, rfl⟩
  | error fault =>
      refine Or.inr ⟨.fault fault, session, asked, rfl, Or.inr ?_⟩
      cases answer with
      | ok u => cases hverdict
      | error raised =>
          cases raised with
          | check finding => cases hverdict
          | crash c => cases hverdict
          | setup message =>
              cases hverdict
              obtain ⟨_, ⟨⟩, hraises⟩ := (hfault _ rfl).resolve_left id
              exact ⟨message, rfl, hraises⟩

/-- A query that is known to answer adds nothing. -/
theorem of_query {own : Fault → Prop} {q : Query (List Question) α} {a : α}
    (hq : q.Heeds r r own q) (h : (q.ask []).1 = .ok a) :
    (ofRun q.inRun).Records r cut fun x results => a = x ∧ results = [] := by
  obtain ⟨answer, asked, hasks, -, -⟩ := hq
  obtain rfl : answer = .ok a := by rw [← h, hasks []]
  intro session before
  refine Or.inl ⟨a, [], session, asked, ?_, (List.append_nil _).symm, rfl, rfl⟩
  rw [outcome_of_run, Query.outcome_inRun, hasks before]

/-- A run adds nothing; it may be cut off. -/
theorem of_run {run : Run (List Question) α} (hrun : run.Heeds r r run) :
    (ofRun run).Records r ((run.outcome []).1 = .error .outOfFuel) fun x results =>
      (run.outcome []).1 = .ok x ∧ results = [] := by
  obtain ⟨answer, asked, hasks, hhalt, -⟩ := hrun
  have hempty : (run.outcome []).1 = answer := by rw [hasks []]
  intro session before
  rw [outcome_of_run, hasks before, hempty]
  cases answer with
  | ok a => exact Or.inl ⟨a, [], session, asked, rfl, (List.append_nil _).symm, rfl, rfl⟩
  | error halt =>
      refine Or.inr ⟨halt, session, asked, rfl, (hhalt halt rfl).imp_left ?_⟩
      rintro rfl
      exact ⟨rfl, rfl⟩

/-- What an audit leaves that starts with an empty report and before any question. -/
theorem execute {a : Audit (List Question) Unit} {post : Unit → List CheckResult → Prop}
    (ha : a.Records r cut post) : ∃ halt? session asked, a.execute [] = (halt?, session, asked) ∧
      (∀ halt, halt? = some halt → halt = .outOfFuel ∧ cut ∨
        ∃ message, halt = .fault (.setup message) ∧ r.Raises asked message) ∧
      (halt? = none → post () session.report.results) := by
  rcases ha {} [] with ⟨⟨⟩, results, after, asked, ho, hresults, hpost⟩ |
    ⟨halt, after, asked, ho, hhalt⟩
  · refine ⟨none, after, asked, ?_, nofun, fun _ => ?_⟩
    · rw [execute_eq, ho]
      rfl
    · rw [hresults]
      exact hpost
  · refine ⟨some halt, after, asked, ?_, ?_, nofun⟩
    · rw [execute_eq, ho]
      rfl
    · rintro _ ⟨⟩
      exact hhalt

end Audit.Records

/-! ## The suite -/

/-- The single checks of the suite ask questions, and fail in no other way than with a finding, a
crash or a setup fault that is raised. -/
theorem SuiteCheck.heeds (r r' : Replies) {c : SuiteCheck} {q : Query (List Question) Unit}
    (h : c.query? r.model = some q) :
    ∃ q', c.query? r'.model = some q' ∧ q.Heeds r r' Fault.Harmless q' := by
  cases c with
  | entryFn => cases h; exact ⟨_, rfl, r.check_entry_heeds r'⟩
  | allFns => cases h; exact ⟨_, rfl, r.check_bodies_heed r'⟩
  | crates => cases h; exact ⟨_, rfl, r.check_crates_heed r'⟩
  | instances => cases h
  | body i => cases h; exact ⟨_, rfl, r.check_instance_heeds r' i⟩
  | traits => cases h; exact ⟨_, rfl, r.check_traits_heed r'⟩

namespace Replies

variable {config : RunConfig} {fuel : Nat} {roots : List Instance} {d : Discovery}

/-- The verdict on a check depends on the answers to its questions alone, given what was found. -/
theorem verdict_congr {c : SuiteCheck}
    (h : ∀ question ∈ r.askedBy fuel roots c, r question = r' question) :
    r'.verdict d c = r.verdict d c := by
  unfold verdict askedBy at *
  cases hquery : c.query? r.model with
  | none =>
      have hquery' : c.query? r'.model = none := by
        cases c <;> cases hquery
        rfl
      rw [hquery']
  | some q =>
      obtain ⟨q', hquery', a, asked, hasks, -, hsame⟩ := SuiteCheck.heeds r r' hquery
      rw [hquery'] at *
      simp only [hquery, hasks []] at h ⊢
      rw [hsame h []]

theorem discover_congr
    (h : ∀ question ∈ ((r.model.discover fuel roots).outcome []).2, r question = r' question) :
    ((r'.model.discover fuel roots).outcome []).1 =
      ((r.model.discover fuel roots).outcome []).1 := by
  obtain ⟨a, asked, hasks, -, hsame⟩ := r.explore_heeds r' fuel (.start roots)
  unfold Model.discover at h ⊢
  rw [hasks []] at h ⊢
  rw [hsame h []]

theorem roots_congr (h : ∀ question ∈ (r.model.roots.ask []).2, r question = r' question) :
    (r'.model.roots.ask []).1 = (r.model.roots.ask []).1 := by
  obtain ⟨a, asked, hasks, -, hsame⟩ := r.roots_heed r'
  rw [hasks []] at h ⊢
  rw [hsame h []]

/-- A check that is a single query adds its result. -/
theorem check_records {c : SuiteCheck} {q : Query (List Question) Unit}
    (h : c.query? r.model = some q) : (Audit.check config c.name q).Records r cut fun _ results =>
      ∀ d, List.Forall₂ (r.Gives d) [c] results := by
  obtain ⟨q', hquery, hheeds⟩ := SuiteCheck.heeds r r h
  obtain rfl := Option.some.inj (h.symm.trans hquery)
  refine (Audit.Records.check hheeds).mono ?_
  rintro _ _ ⟨verdict, hverdict, rfl⟩ d
  refine .cons ⟨rfl, ?_⟩ .nil
  rw [Replies.verdict, h]
  exact hverdict

/-- No check is left out, whatever became of those before. -/
theorem check_all_records {checks : List SuiteCheck}
    {made : List (String × Query (List Question) Unit)} (h : List.Forall₂ r.Makes checks made) :
    (Audit.checkAll config made).Records r cut fun _ results =>
      ∀ d, List.Forall₂ (r.Gives d) checks results := by
  induction h with
  | nil =>
      refine (Audit.Records.pure ()).mono ?_
      rintro _ _ ⟨-, rfl⟩ d
      exact .nil
  | @cons c n checks made hhead _ ih =>
      have hfirst : (Audit.check config n.1 n.2).Records r cut fun _ results =>
          ∀ d, List.Forall₂ (r.Gives d) [c] results := hhead.1 ▸ check_records hhead.2
      refine .bind (f := fun _ => Audit.checkAll config made) hfirst fun _ results hresults => ?_
      exact ih.mono fun _ more hmore d => List.rel_append (hresults d) (hmore d)

/-- The search adds its own result, with the findings that it made. -/
theorem discovery_records (r : Replies) (config : RunConfig) (fuel : Nat) (roots : List Instance) :
    (r.model.auditDiscovery config fuel roots).Records r
      (((r.model.discover fuel roots).outcome []).1 = .error .outOfFuel) fun d results =>
        ((r.model.discover fuel roots).outcome []).1 = .ok d ∧
          List.Forall₂ (r.Gives d) [.instances] results := by
  unfold Model.auditDiscovery
  refine .bind (.of_run (r.explore_heeds r fuel (.start roots))) ?_
  rintro d _ ⟨hd, rfl⟩
  have hnote : (Audit.update fun session => session.note config (d.progressLine roots)).Records r
      (((r.model.discover fuel roots).outcome []).1 = .error .outOfFuel)
      fun _ results => results = [] := .update fun session => by
    rw [Session.report_note, List.append_nil]
  refine .bind hnote ?_
  rintro _ _ rfl
  refine .bind (.update fun session => session.results_record config _ _) ?_
  rintro _ _ rfl
  refine (Audit.Records.pure d).mono ?_
  rintro _ _ ⟨rfl, rfl⟩
  exact ⟨hd, .cons ⟨rfl, rfl⟩ .nil⟩

/-- The check of the traits is made if the run asks for it. -/
theorem last_records (r : Replies) (config : RunConfig) :
    (do
      if config.fixme then Audit.check config "test_traits" r.model.checkTraits
      Audit.update fun session => session.finish config :
      Audit (List Question) Unit).Records r cut fun _ results =>
        ∀ d, List.Forall₂ (r.Gives d) (if config.fixme then [.traits] else []) results := by
  have hfinish : (Audit.update fun session => session.finish config).Records r cut
      fun _ results => results = [] := .update fun session => by
    rw [Session.report_finish, List.append_nil]
  cases hfixme : config.fixme with
  | true =>
      have htraits : (Audit.check config "test_traits" r.model.checkTraits).Records r cut
          fun _ results => ∀ d, List.Forall₂ (r.Gives d) [.traits] results :=
        check_records (c := .traits) rfl
      refine .bind htraits fun _ traits htraits => hfinish.mono ?_
      rintro _ _ rfl
      rw [List.append_nil]
      exact htraits
  | false =>
      refine hfinish.mono ?_
      rintro _ _ rfl d
      exact .nil

theorem answers_from_oracle (r : Replies) : r.model.AnswersFrom r.oracle fun _ => True where
  bodyOf _ _ _ := ⟨rfl, trivial⟩
  resolve _ _ _ _ := ⟨rfl, trivial⟩

/-- A search that ends has one finding for each fault that it met, in order. -/
theorem errors_eq (r : Replies) (hd : ((r.model.discover fuel roots).outcome []).1 = .ok d) :
    d.errors = d.instances.flatMap fun i => (r.oracle.edges i).filterMap Edge.fault? := by
  have hsearch := r.answers_from_oracle.search_of_explore trivial (Prod.ext hd rfl)
  exact ((Discovery.Faithful.start r.oracle.edges roots).search hsearch).1.errors

/-- An audit gives a result for each check, in order, unless it halts. -/
theorem audit_records (r : Replies) (config : RunConfig) (fuel : Nat)
    (hroots : (r.model.roots.ask []).1 = .ok roots) :
    (r.model.audit config fuel).Records r
      (((r.model.discover fuel roots).outcome []).1 = .error .outOfFuel) fun _ results =>
        ∃ d, ((r.model.discover fuel roots).outcome []).1 = .ok d ∧
          List.Forall₂ (r.Gives d) (SuiteCheck.all config d.instances) results := by
  unfold Model.audit
  refine .bind (.of_query (r.roots_heed r) hroots) ?_
  rintro _ _ ⟨rfl, rfl⟩
  have hfirst : List.Forall₂ r.Makes [.entryFn, .allFns, .crates]
      [("test_entry_fn", r.model.checkEntry), ("test_all_fns", r.model.checkBodies),
        ("test_crates", r.model.checkCrates)] :=
    .cons ⟨rfl, rfl⟩ (.cons ⟨rfl, rfl⟩ (.cons ⟨rfl, rfl⟩ .nil))
  refine .bind (check_all_records hfirst) fun _ base hbase => ?_
  refine .bind (r.discovery_records config fuel _) fun d search hsearch => ?_
  have hbodies : List.Forall₂ r.Makes (d.instances.map SuiteCheck.body)
      (d.instances.map fun i => (Model.bodyCheckName i, r.model.checkInstance i)) := by
    rw [List.forall₂_map_left_iff, List.forall₂_map_right_iff, List.forall₂_same]
    exact fun i _ => ⟨rfl, rfl⟩
  refine .bind (check_all_records hbodies) fun _ bodies hbodies => ?_
  refine (last_records r config).mono fun _ last hlast => ?_
  have hresults := List.rel_append (List.rel_append (hbase d) hsearch.2) (hbodies d)
  refine ⟨d, hsearch.1, ?_⟩
  simpa [SuiteCheck.all] using List.rel_append hresults (hlast d)

/-- Where the verdicts on all checks but one agree, so do the results. -/
theorem results_agree {c : SuiteCheck} {checks : List SuiteCheck}
    {results results' : List CheckResult}
    (h : List.Forall₂ (r.Gives d) checks results)
    (h' : List.Forall₂ (r'.Gives d) checks results')
    (hsame : ∀ other ∈ checks, other ≠ c → r'.verdict d other = r.verdict d other) :
    ∀ k : Nat, checks[k]? ≠ some c → results'[k]? = results[k]? := by
  induction h generalizing results' with
  | nil =>
      cases h'
      exact fun _ _ => rfl
  | @cons other result checks results hhead _ ih =>
      obtain _ | ⟨hhead', htail'⟩ := h'
      obtain ⟨hfirst, hrest⟩ := List.forall_mem_cons.mp hsame
      intro k hk
      cases k with
      | succ k => exact ih htail' hrest k hk
      | zero =>
          have hverdict := hfirst fun hother => hk (congrArg some hother)
          rw [hhead'.2, hhead.2] at hverdict
          refine congrArg some ?_
          rw [CheckResult.mk.injEq, hhead'.1, hhead.1]
          exact ⟨rfl, Except.ok.inj hverdict⟩

/-- Two models whose answers differ only where neither the roots nor any check but `c` ask: the
results of an audit of one are those of the other, except the result of `c`. -/
theorem results_isolated {c : SuiteCheck} (hc : c ≠ .instances)
    (hroots : (r.model.roots.ask []).1 = .ok roots)
    (hd : ((r.model.discover fuel roots).outcome []).1 = .ok d) {results : List CheckResult}
    (hresults : List.Forall₂ (r.Gives d) (SuiteCheck.all config d.instances) results)
    (hdiffer : ∀ question, r question ≠ r' question → question ∉ (r.model.roots.ask []).2 ∧
      ∀ other ∈ SuiteCheck.all config d.instances, other ≠ c →
        question ∉ r.askedBy fuel roots other) {fuel' : Nat} {session : Session}
    {asked : List Question}
    (haudit : (r'.model.audit config fuel').execute [] = (none, session, asked)) :
    session.report.results.length = results.length ∧
      ∀ k : Nat, (SuiteCheck.all config d.instances)[k]? ≠ some c →
        session.report.results[k]? = results[k]? := by
  have hsame {other : SuiteCheck} (hother : other ∈ SuiteCheck.all config d.instances)
      (hne : other ≠ c) : ∀ question ∈ r.askedBy fuel roots other, r question = r' question := by
    intro question hquestion
    by_contra hquestions
    exact (hdiffer question hquestions).2 other hother hne hquestion
  have hroots' : (r'.model.roots.ask []).1 = .ok roots := by
    rw [roots_congr fun question hquestion => ?_, hroots]
    by_contra hquestions
    exact (hdiffer question hquestions).1 hquestion
  -- the other model is searched with the same end, with whatever fuel
  have hd' : ((r'.model.discover fuel roots).outcome []).1 = .ok d := by
    rw [discover_congr (hsame (by simp [SuiteCheck.all]) hc.symm), hd]
  obtain ⟨halt?, session', asked', hexecute, -, hreport⟩ :=
    (audit_records r' config fuel' hroots').execute
  rw [haudit] at hexecute
  cases hexecute
  obtain ⟨found, hfound, hgives⟩ := hreport rfl
  obtain rfl := Model.explore_unique hfound hd'
  refine ⟨by rw [← hgives.length_eq, hresults.length_eq], results_agree hresults hgives ?_⟩
  exact fun other hother hne => verdict_congr (hsame hother hne)

end Replies

/-! ## What is reported about the search -/

/-- A summary says where no place is known, and compares nothing: it shows its message. -/
theorem Discovery.edge_summary_render (errors : List CheckFault) :
    (edgeSummary errors).render = toString errors.length
      ++ " call edge(s) could not be followed:\n    - "
      ++ "\n    - ".intercalate (errors.map CheckFault.render) := by
  simp [CheckFault.render, edgeSummary, CheckFault.placeText, CheckFault.comparisonText]

/-- Every finding of a search stands in what its verdict says. -/
theorem Discovery.verdict_reports (d : Discovery) : ∀ error ∈ d.errors,
    ∃ fault before behind, d.verdict = .failed fault ∧
      fault.render = before ++ error.render ++ behind := by
  intro error herror
  unfold Discovery.verdict
  rcases herrors : d.errors with _ | ⟨first, _ | ⟨second, rest⟩⟩ <;> rw [herrors] at herror
  · exact absurd herror List.not_mem_nil
  · obtain rfl := List.mem_singleton.mp herror
    exact ⟨error, "", "", rfl, by rw [String.empty_append, String.append_empty]⟩
  · obtain ⟨before, behind, htext⟩ := exists_append_of_mem_intercalate "\n    - "
      (List.mem_map_of_mem (f := CheckFault.render) herror)
    refine ⟨_, toString (first :: second :: rest).length
      ++ " call edge(s) could not be followed:\n    - " ++ before, behind, rfl, ?_⟩
    rw [Discovery.edge_summary_render, htext]
    simp only [String.append_assoc]

/-- Every result counts as one that succeeded or one that failed. -/
theorem Report.total_eq (report : Report) : report.total = report.succeeded + report.failed := by
  have hle : report.succeeded ≤ report.total := List.countP_le_length
  rw [Report.failed]
  omega

/-- Take a model that gives a fixed answer or fault to every query, whose roots are found and whose
search ends. Its audit halts only with a setup fault that a query it makes raises. Otherwise it
reports the four first checks, then one for each instance that was found, then the one of the traits
if the run asks for it. Every fault of the search is one finding, and all findings stand in the
verdict on it. And another model that differs from this one only where a single check asks that is
not the search has the same results, except that of this check. -/
theorem audit_isolated (r : Replies) (config : RunConfig) {fuel : Nat} {roots : List Instance}
    (hroots : (r.model.roots.ask []).1 = .ok roots)
    (hends : ((r.model.discover fuel roots).outcome []).1 ≠ .error .outOfFuel) :
    ∃ halt? session asked, (r.model.audit config fuel).execute [] = (halt?, session, asked) ∧
      (∀ halt, halt? = some halt →
        ∃ message, halt = .fault (.setup message) ∧ r.Raises asked message) ∧
      (halt? = none → ∃ d, ((r.model.discover fuel roots).outcome []).1 = .ok d ∧
        session.report.results.map CheckResult.name =
          ["test_entry_fn", "test_all_fns", "test_crates", "test_instances"]
            ++ d.instances.map Model.bodyCheckName
            ++ (if config.fixme then ["test_traits"] else []) ∧
        session.report.total = session.report.succeeded + session.report.failed ∧
        d.errors = d.instances.flatMap (fun i => (r.oracle.edges i).filterMap Edge.fault?) ∧
        session.report.results[3]? = some ⟨"test_instances", d.verdict⟩ ∧
        (∀ error ∈ d.errors, ∃ fault before behind, d.verdict = .failed fault ∧
          fault.render = before ++ error.render ++ behind) ∧
        ∀ c ≠ SuiteCheck.instances, ∀ (r' : Replies) (fuel' : Nat) (session' : Session)
          (asked' : List Question),
          (∀ question, r question ≠ r' question → question ∉ (r.model.roots.ask []).2 ∧
            ∀ other ∈ SuiteCheck.all config d.instances, other ≠ c →
              question ∉ r.askedBy fuel roots other) →
          (r'.model.audit config fuel').execute [] = (none, session', asked') →
          session'.report.results.length = session.report.results.length ∧
            ∀ k : Nat, (SuiteCheck.all config d.instances)[k]? ≠ some c →
              session'.report.results[k]? = session.report.results[k]?) := by
  obtain ⟨halt?, session, asked, hexecute, hhalt, hreport⟩ :=
    (Replies.audit_records r config fuel hroots).execute
  refine ⟨halt?, session, asked, hexecute, fun halt h => ?_, fun h => ?_⟩
  · exact (hhalt halt h).resolve_left fun hcut => hends hcut.2
  obtain ⟨d, hd, hresults⟩ := hreport h
  refine ⟨d, hd, ?_, session.report.total_eq, r.errors_eq hd, ?_, d.verdict_reports,
    fun c hc r' fuel' session' asked' hdiffer haudit =>
      Replies.results_isolated hc hroots hd hresults hdiffer haudit⟩
  · have hnames : session.report.results.map CheckResult.name =
        (SuiteCheck.all config d.instances).map SuiteCheck.name := by
      rw [← List.forall₂_eq_eq_eq, List.forall₂_map_left_iff, List.forall₂_map_right_iff]
      exact hresults.flip.imp fun result c hgives => hgives.1
    rw [hnames]
    cases hfixme : config.fixme <;> simp [SuiteCheck.all, SuiteCheck.name, hfixme]
  · simp only [SuiteCheck.all, List.cons_append, List.nil_append] at hresults
    obtain ⟨_, _, -, hresults, hfirst⟩ := List.forall₂_cons_left_iff.mp hresults
    obtain ⟨_, _, -, hresults, hsecond⟩ := List.forall₂_cons_left_iff.mp hresults
    obtain ⟨_, _, -, hresults, hthird⟩ := List.forall₂_cons_left_iff.mp hresults
    obtain ⟨result, _, ⟨hname, hverdict⟩, -, hfourth⟩ := List.forall₂_cons_left_iff.mp hresults
    rw [hfirst, hsecond, hthird, hfourth]
    refine congrArg some ?_
    rw [CheckResult.mk.injEq]
    exact ⟨hname, (Except.ok.inj hverdict).symm⟩

/-- The answers about two functions that call each other. Nothing else is known: every other
question raises a fault. -/
def Replies.rally : Replies
  | .entryFn => .ok none
  | .localItems => .ok [{ defId := ⟨"game", "ping"⟩, name := "ping", kind := .fn }]
  | .instanceOf _ => .ok (some (.inGame "ping"))
  | .bodyOf i => Oracle.rally.bodyOf i
  | .resolve fn args => Oracle.rally.resolve fn args
  | _ => .error (.crash .outOfRange)

theorem Replies.rally_not_raises (asked : List Question) (message : String) :
    ¬ rally.Raises asked message := by
  rintro ⟨question, -, hraises⟩
  cases question <;> simp only [rally, Oracle.rally] at hraises <;>
    (try split_ifs at hraises) <;> cases hraises

/-- The audit of two functions that call each other makes all its checks, although the body of no
item, no crate and one of the calls are unknown. -/
theorem audit_isolated_rally : ∃ session asked,
    (Replies.rally.model.audit {} 9).execute [] = (none, session, asked) ∧
      session.report.results.map CheckResult.name =
        ["test_entry_fn", "test_all_fns", "test_crates", "test_instances",
          "test_body[game::ping]", "test_body[game::pong]"] := by
  have hfound : ((Replies.rally.model.discover 9 [.inGame "ping"]).outcome []).1.toOption.map
      Discovery.instances = some [.inGame "ping", .inGame "pong"] := by decide +kernel
  have hroots : (Replies.rally.model.roots.ask []).1 = .ok [.inGame "ping"] := rfl
  have hends : ((Replies.rally.model.discover 9 [.inGame "ping"]).outcome []).1 ≠
      .error .outOfFuel := by
    intro hcut
    rw [hcut] at hfound
    cases hfound
  obtain ⟨halt?, session, asked, hexecute, hhalt, hreport⟩ :=
    audit_isolated Replies.rally {} hroots hends
  cases halt? with
  | some halt =>
      obtain ⟨message, -, hraises⟩ := hhalt halt rfl
      exact absurd hraises (Replies.rally_not_raises asked message)
  | none =>
      obtain ⟨d, hd, hnames, -⟩ := hreport rfl
      rw [hd] at hfound
      refine ⟨session, asked, hexecute, ?_⟩
      rw [hnames, Option.some.inj hfound]
      decide +kernel

end MirAudit
