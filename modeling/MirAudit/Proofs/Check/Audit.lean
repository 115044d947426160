import MirAudit.Check.Suite
import MirAudit.Proofs.Query

/-!
# What an audit records

`Audit.Does inv a r change` says that `a` gives `r` and changes the session by `change`, from every
state of the model that satisfies `inv`. Read `Does.check` first: a check records the verdict on
what its query answers.
-/

namespace MirAudit

variable {σ α β : Type}

/-! ## Reports -/

namespace Session

variable (session : Session) (config : RunConfig)

/-- The session in which some more checks have succeeded. -/
def recordOk (names : List String) : Session :=
  names.foldl (fun session name => session.record config name .ok) session

@[simp] theorem report_note (text : String) :
    (session.note config text).report = session.report := by
  unfold note
  split <;> rfl

@[simp] theorem report_finish : (session.finish config).report = session.report :=
  session.report_note config _

/-- A verdict is recorded behind the others. -/
theorem results_record (name : String) (verdict : Verdict) :
    (session.record config name verdict).report.results =
      session.report.results ++ [⟨name, verdict⟩] := by
  unfold record
  cases verdict.message? with
  | none => simp
  | some message => rfl

theorem results_record_ok (names : List String) :
    (session.recordOk config names).report.results =
      session.report.results ++ names.map fun name => ⟨name, .ok⟩ := by
  unfold recordOk
  induction names generalizing session with
  | nil => simp
  | cons name names ih =>
      rw [List.foldl_cons, ih, results_record, List.append_assoc]
      rfl

end Session

/-! ## Outcomes of audits -/

/-- The outcome of an audit from a session and a state, and what it leaves of both. -/
def Audit.outcome (a : Audit σ α) (session : Session) (s : σ) : (Except Halt α × Session) × σ :=
  (a.run.run session).run s

namespace Audit

/-- An audit goes on from where the audit before it stopped, unless that one halted. -/
theorem outcome_bind (a : Audit σ α) (f : α → Audit σ β) (session : Session) (s : σ) :
    outcome (a >>= f) session s =
      match a.outcome session s with
      | ((.ok r, session), s) => (f r).outcome session s
      | ((.error halt, session), s) => ((.error halt, session), s) := by
  unfold outcome
  simp only [bind, ExceptT.bind, ExceptT.bindCont, ExceptT.mk, ExceptT.run, StateT.bind,
    StateT.run]
  rcases a session s with ⟨⟨_ | _, _⟩, _⟩ <;> rfl

/-- A run inside an audit does not touch the session. -/
theorem outcome_of_run (r : Run σ α) (session : Session) (s : σ) :
    (ofRun r).outcome session s = (((r.outcome s).1, session), (r.outcome s).2) :=
  rfl

/-- A check records the verdict on its outcome, unless that is a setup fault. -/
theorem outcome_check (config : RunConfig) (name : String) (q : Query σ Unit) (session : Session)
    (s : σ) : (check config name q).outcome session s =
      match Verdict.ofOutcome (q.ask s).1 with
      | .ok verdict => ((.ok (), session.record config name verdict), (q.ask s).2)
      | .error fault => ((.error (.fault fault), session), (q.ask s).2) := by
  have hlift : outcome (liftM (StateT.lift q.run : StateT Session (StateM σ) _) : Audit σ _)
      session s = ((.ok (q.ask s).1, session), (q.ask s).2) := rfl
  rw [check, outcome_bind, hlift]
  dsimp only
  cases Verdict.ofOutcome (q.ask s).1 <;> rfl

/-- What an audit leaves is its outcome from a session with an empty report. -/
theorem execute_eq (a : Audit σ Unit) (s : σ) : a.execute s =
    match a.outcome {} s with
    | ((.ok (), session), s) => (none, session, s)
    | ((.error halt, session), s) => (some halt, session, s) :=
  rfl

/-- A query that fails in front of an audit halts it before anything is recorded. -/
theorem execute_of_error {q : Query σ α} {f : α → Audit σ Unit} {s next : σ} {fault : Fault}
    (h : q.ask s = (.error fault, next)) :
    execute (ofRun q.inRun >>= f) s = (some (.fault fault), {}, next) := by
  rw [execute_eq, outcome_bind, outcome_of_run, Query.outcome_inRun, h]

/-! ## Fixed outcomes -/

/-- From every state that satisfies `inv`, the audit gives `r`, changes the session by `change` and
leaves such a state. -/
def Does (inv : σ → Prop) (a : Audit σ α) (r : α) (change : Session → Session) : Prop :=
  ∀ session s, inv s → ∃ next, inv next ∧ a.outcome session s = ((.ok r, change session), next)

namespace Does

variable {inv : σ → Prop}

theorem congr {a : Audit σ α} {r : α} {change other : Session → Session}
    (ha : a.Does inv r change) (h : ∀ session, change session = other session) :
    a.Does inv r other := by
  obtain rfl : change = other := funext h
  exact ha

theorem pure (a : α) : (Pure.pure a : Audit σ α).Does inv a id :=
  fun _ s hs => ⟨s, hs, rfl⟩

theorem update (change : Session → Session) :
    (Audit.update change : Audit σ Unit).Does inv () change :=
  fun _ s hs => ⟨s, hs, rfl⟩

/-- An audit behind another one changes the session further. -/
theorem bind {a : Audit σ α} {f : α → Audit σ β} {r : α} {t : β} {first second : Session → Session}
    (ha : a.Does inv r first) (hf : (f r).Does inv t second) :
    Does inv (a >>= f) t (second ∘ first) := by
  intro session s hs
  obtain ⟨middle, hmiddle, houtcome⟩ := ha session s hs
  obtain ⟨next, hnext, hrest⟩ := hf (first session) middle hmiddle
  refine ⟨next, hnext, ?_⟩
  rw [outcome_bind, houtcome]
  exact hrest

/-- A run that succeeds can stand in an audit. -/
theorem of_run {r : Run σ α} {a : α}
    (hr : ∀ s, inv s → ∃ next, inv next ∧ r.outcome s = (.ok a, next)) :
    (ofRun r).Does inv a id := by
  intro session s hs
  obtain ⟨next, hnext, houtcome⟩ := hr s hs
  refine ⟨next, hnext, ?_⟩
  rw [outcome_of_run, houtcome]
  rfl

/-- A query that answers can stand in an audit. -/
theorem of_query {q : Query σ α} {a : α} (hq : q.Answers inv (.ok a)) :
    (ofRun q.inRun).Does inv a id := by
  refine of_run fun s hs => ?_
  obtain ⟨next, hask, hnext⟩ := hq.ask_eq hs
  refine ⟨next, hnext, ?_⟩
  rw [Query.outcome_inRun, hask]

/-- A check records the verdict on what its query answers. -/
theorem check {config : RunConfig} {name : String} {q : Query σ Unit} {answer : Except Fault Unit}
    {verdict : Verdict} (hq : q.Answers inv answer)
    (hverdict : Verdict.ofOutcome answer = .ok verdict) :
    (Audit.check config name q).Does inv () fun session => session.record config name verdict := by
  intro session s hs
  obtain ⟨houtcome, hnext⟩ := hq s hs
  refine ⟨(q.ask s).2, hnext, ?_⟩
  rw [outcome_check, houtcome, hverdict]

/-- Such an audit ends with the changed session. -/
theorem execute {a : Audit σ Unit} {change : Session → Session} (ha : a.Does inv () change) {s : σ}
    (hs : inv s) : ∃ next, a.execute s = (none, change {}, next) := by
  obtain ⟨next, -, houtcome⟩ := ha {} s hs
  exact ⟨next, by rw [execute_eq, houtcome]⟩

/-- Checks that all succeed are recorded in order. -/
theorem check_all {config : RunConfig} {checks : List (String × Query σ Unit)}
    (h : ∀ c ∈ checks, c.2.Answers inv (.ok ())) :
    (Audit.checkAll config checks).Does inv () fun session =>
      session.recordOk config (checks.map Prod.fst) := by
  induction checks with
  | nil => exact pure ()
  | cons c checks ih =>
      have hfirst : (Audit.check config c.1 c.2).Does inv () fun session =>
          session.record config c.1 .ok := check (h c List.mem_cons_self) rfl
      have hrest := ih fun other hother => h other (List.mem_cons_of_mem c hother)
      exact bind (f := fun _ => Audit.checkAll config checks) hfirst hrest

end Does

end Audit

end MirAudit
