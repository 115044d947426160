import MirAudit.Check.Report
import MirAudit.Discovery

/-!
# Running checks

A check is a query without an answer. A finding makes it fail and a crash makes it panic; neither
stops the checks behind it. A setup fault ends the run, and what was recorded before is kept.
-/

namespace MirAudit

/-- What a run has recorded and written so far. -/
structure Session where
  report : Report := {}
  log : List LogLine := []
deriving DecidableEq

/-- A run that records verdicts. What is recorded survives a halt. -/
abbrev Audit (σ α : Type) := ExceptT Halt (StateT Session (StateM σ)) α

namespace Session

/-- The session with a progress line, if the run is verbose. -/
def note (s : Session) (config : RunConfig) (text : String) : Session :=
  if config.verbose then { s with log := s.log ++ [LogLine.progress text] } else s

/-- The session with one more verdict. -/
def record (s : Session) (config : RunConfig) (name : String) (verdict : Verdict) : Session :=
  let result : CheckResult := { name, verdict }
  let recorded := { s with report := ⟨s.report.results ++ [result]⟩ }
  match verdict.message? with
  | none => recorded.note config ("Test " ++ name ++ ": Ok")
  | some message => { recorded with log := recorded.log ++ [LogLine.failure name message] }

/-- The session with the line that sums it up. -/
def finish (s : Session) (config : RunConfig) : Session :=
  s.note config s.report.summaryLine

end Session

/-- The verdict on a check that ended like this, or the setup fault. -/
def Verdict.ofOutcome : Except Fault Unit → Except Fault Verdict
  | .ok () => .ok .ok
  | .error (.check fault) => .ok (.failed fault)
  | .error (.crash crash) => .ok (.panicked crash)
  | .error (.setup message) => .error (.setup message)

namespace Audit

variable {σ α : Type}

/-- Changes the session. -/
def update (change : Session → Session) : Audit σ Unit :=
  modify change

/-- A run as part of an audit. -/
def ofRun (run : Run σ α) : Audit σ α :=
  ExceptT.mk (StateT.lift run.run)

/-- Runs a check and records its verdict. -/
def check (config : RunConfig) (name : String) (q : Query σ Unit) : Audit σ Unit := do
  let outcome ← (StateT.lift q.run : StateT Session (StateM σ) (Except Fault Unit))
  match Verdict.ofOutcome outcome with
  | .ok verdict => update fun s => s.record config name verdict
  | .error fault => throw (.fault fault)

/-- Runs named checks in order. -/
def checkAll (config : RunConfig) : List (String × Query σ Unit) → Audit σ Unit
  | [] => pure ()
  | (name, q) :: checks => do
    check config name q
    checkAll config checks

/-- Runs named checks and sums them up. -/
def runChecks (config : RunConfig) (checks : List (String × Query σ Unit)) : Audit σ Unit := do
  checkAll config checks
  update fun s => s.finish config

/-- Why an audit halted, if it did, its session and the state of the model it leaves. -/
def execute (audit : Audit σ Unit) (state : σ) : Option Halt × Session × σ :=
  match (audit.run.run {}).run state with
  | ((.ok (), session), state) => (none, session, state)
  | ((.error halt, session), state) => (some halt, session, state)

end Audit

end MirAudit
