import MirAudit.Fault

/-!
# Reports

A report lists the verdicts of the checks of a run in order. What is written while the checks run is
a list of log lines: a failure is always written, progress only in verbose mode and behind a marker
by which it can be filtered out.
-/

namespace MirAudit

/-- The switches of a run. -/
structure RunConfig where
  /-- Write progress lines. -/
  verbose : Bool := false
  /-- Also run the checks that are known to trip over models. -/
  fixme : Bool := false
deriving DecidableEq

/-- How a check ended. -/
inductive Verdict where
  | ok
  | failed (fault : CheckFault)
  | panicked (crash : Crash)
deriving DecidableEq

namespace Verdict

/-- Whether the check succeeded. -/
def isOk : Verdict → Bool
  | .ok => true
  | _ => false

/-- The word for the verdict. -/
def word : Verdict → String
  | .ok => "ok"
  | .failed _ => "failed"
  | .panicked _ => "panic"

/-- What a failed check says. -/
def message? : Verdict → Option String
  | .ok => none
  | .failed fault => some fault.render
  | .panicked crash => some crash.message

/-- The code of a failed check. -/
def reasonCode? : Verdict → Option String
  | .ok => none
  | .failed fault => some fault.kind.code
  | .panicked _ => some FindingKind.panic.code

end Verdict

/-- The verdict on a named check. -/
structure CheckResult where
  name : String
  verdict : Verdict
deriving DecidableEq

/-- The verdicts of a run. -/
structure Report where
  results : List CheckResult := []
deriving DecidableEq

namespace Report

/-- The number of checks. -/
def total (r : Report) : Nat :=
  r.results.length

/-- The number of checks that succeeded. -/
def succeeded (r : Report) : Nat :=
  r.results.countP fun result => result.verdict.isOk

/-- The number of checks that did not succeed. -/
def failed (r : Report) : Nat :=
  r.total - r.succeeded

/-- Whether no check failed. -/
def isOk (r : Report) : Bool :=
  r.failed = 0

/-- The results that are not ok. -/
def failures (r : Report) : List CheckResult :=
  r.results.filter fun result => !result.verdict.isOk

/-- The first result of a name, or the crash that there is none. -/
def result (r : Report) (name : String) : Except Crash CheckResult :=
  match r.results.find? fun result => result.name = name with
  | some result => .ok result
  | none => .error (.missingKey (Describe.string name))

/-- The line that sums up a run. -/
def summaryLine (r : Report) : String :=
  "Ran " ++ toString r.total ++ " tests. " ++ toString r.succeeded ++ " succeeded. "
    ++ toString r.failed ++ " failed"

end Report

/-- A message of a run. -/
inductive LogLine where
  | progress (text : String)
  | failure (name message : String)
deriving DecidableEq

/-- The marker of progress lines. -/
def progressMarker : String :=
  "[T-DRIVE]"

/-- The written form of a message, with its line end. -/
def LogLine.render : LogLine → String
  | .progress text => progressMarker ++ " " ++ text ++ "\n"
  | .failure name message => "Test " ++ name ++ ": Failed:\n    - " ++ message ++ "\n"

/-- The written form of a log. -/
def renderLog (log : List LogLine) : String :=
  String.join (log.map LogLine.render)

end MirAudit
