import MirAudit.CommandLine.Arguments
import MirAudit.CommandLine.Files
import MirAudit.Inspection
import MirAudit.Source.Load
import MirAudit.Text.Json
import MirAudit.Text.Newline

/-!
# Answers

What a command prints and the status it exits with: 0 when every check passed, 1 when a check failed
or an inspection met a finding, 2 when the program could not be loaded or queried. A fault is
printed as `file:line:column: error: message`, or with `--json` as a document on standard output.
-/

namespace MirAudit.CommandLine

/-- What a command leaves behind. -/
structure Answer where
  exitCode : Nat
  stdout : String := ""
  stderr : String := ""
deriving DecidableEq

/-- How a command ends. -/
inductive Ending where
  | answer (answer : Answer)
  /-- A fault that no command reports. -/
  | crash (stdout stderr : String) (fault : Fault)
  /-- The search for instances was cut off. -/
  | outOfFuel

/-- The environment variable that switches on progress lines. -/
def verboseVariable : String :=
  "MIRPROBE_VERBOSE"

/-- The environment variable that switches on the extra checks. -/
def fixmeVariable : String :=
  "MIRPROBE_FIXME"

/-- Whether a variable switches something on: it is set to anything but zero. -/
def isOn (environment : String → Option String) (name : String) : Bool :=
  match environment name with
  | none => false
  | some value => value ≠ "0"

/-- The switches of an audit. The environment can only switch on. -/
def configOf (environment : String → Option String) (verbose fixme : Bool) : RunConfig :=
  { verbose := verbose || isOn environment verboseVariable
    fixme := fixme || isOn environment fixmeVariable }

/-- The stages at which a program can be refused. -/
inductive Phase where
  | load
  | setup
deriving DecidableEq

/-- The name of a stage. -/
def Phase.name : Phase → String
  | .load => "load"
  | .setup => "setup"

/-! ## Documents -/

/-- The document about a program that is refused. -/
def refusalDocument (span : Span) (message : String) (phase : Phase) : Json :=
  .object
    [("exit_code", .nat 2),
     ("summary", .null),
     ("results", .array []),
     ("diagnostics", .array
        [.object
          [("phase", .string phase.name),
           ("message", .string message),
           ("severity", .string "error"),
           ("file", Json.option .string span.file),
           ("line", Json.option .int span.line),
           ("column", Json.option .int span.column)]])]

/-- The document about one result. -/
def resultDocument (r : CheckResult) : Json :=
  .object
    [("name", .string r.name),
     ("outcome", .string r.verdict.word),
     ("message", Json.option .string r.verdict.message?),
     ("reason_code", Json.option .string r.verdict.reasonCode?)]

/-- The document about a report. -/
def reportDocument (exitCode : Nat) (r : Report) : Json :=
  .object
    [("exit_code", .nat exitCode),
     ("summary", .object
        [("total", .nat r.total), ("succeeded", .nat r.succeeded), ("failed", .nat r.failed)]),
     ("results", .array (r.results.map resultDocument))]

/-! ## Commands -/

/-- The line about a fault. -/
def faultLine (span : Span) (message : String) : String :=
  span.render ++ ": error: " ++ message ++ "\n"

/-- The answer about a program that is refused, behind what was written before. -/
def refusal (written : Answer) (span : Span) (message : String) (phase : Phase) (json : Bool) :
    Answer :=
  if json then
    { written with
      exitCode := 2
      stdout := written.stdout ++ (refusalDocument span message phase).render ++ "\n" }
  else { written with exitCode := 2, stderr := written.stderr ++ faultLine span message }

/-- Why there is no program to run a command on. -/
inductive Unloaded where
  /-- The file cannot be read, or its text is rejected. -/
  | refused (span : Span) (message : String)
  /-- A numeral of the text cannot be read. -/
  | overlong (numeral : Digits.Overlong)

/-- What a load error in a file comes to. -/
def Unloaded.ofError (file : String) : Source.LoadError → Unloaded
  | .located fault => .refused (fault.span (some file)) fault.fault.message
  | .overlong numeral => .overlong numeral

/-- The program of a file. -/
def loadFile (file : String) (text : Except ReadFault String) : Except Unloaded Program :=
  match text with
  | .error fault => .error (.refused { file := some file } ("cannot read program: " ++ fault.message))
  | .ok text =>
    (Source.loadText (some file) (Newline.normalize text.toList)).mapError (Unloaded.ofError file)

/-- How a command ends that has no program to run on. Only a refusal is answered. -/
def Unloaded.ending (json : Bool) : Unloaded → Ending
  | .refused span message => .answer (refusal { exitCode := 2 } span message .load json)
  | .overlong numeral => .crash "" "" (.crash (Source.numeralCrash numeral))

/-- The answer to an audit of a program. -/
def auditAnswer (file : String) (p : Program) (config : RunConfig) (json : Bool) (fuel : Nat) :
    Ending :=
  let (halt, session, _) := Audit.execute (Program.model.audit config fuel) p
  let written : Answer := { exitCode := 0, stderr := renderLog session.log }
  match halt with
  | none =>
    let exitCode := if session.report.isOk then 0 else 1
    let document := (reportDocument exitCode session.report).render ++ "\n"
    .answer { written with exitCode, stdout := if json then document else "" }
  | some (.fault (.setup message)) =>
    .answer (refusal written { file := some file } message .setup json)
  | some (.fault fault) => .crash written.stdout written.stderr fault
  | some .outOfFuel => .outOfFuel

/-- The answer to an inspection of a program. -/
def inspectAnswer (file : String) (p : Program) : Ending :=
  let (outcome, printed, _) := Inspect.execute Program.model.inspect p
  let written : Answer := { exitCode := 0, stdout := printed.body, stderr := printed.notes }
  match outcome with
  | .ok _ => .answer written
  | .error (.setup message) =>
    .answer (refusal written { file := some file } message .setup false)
  | .error (.check fault) =>
    .answer
      { written with
        exitCode := 1, stderr := written.stderr ++ faultLine { file := some file } fault.render }
  | .error fault => .crash written.stdout written.stderr fault

/-- The path of the source of a command. -/
def Command.path : Command → Path
  | .check source _ _ _ => Path.ofString source
  | .inspect source => Path.ofString source

/-- The crash of a command whose source has a name that no file can have. -/
def unusableName : Crash :=
  .other "ValueError" "embedded null byte"

/-- How a command ends, given the outcome of reading its source. -/
def Command.answer (c : Command) (environment : String → Option String)
    (text : Except ReadFault String) (fuel : Nat) : Ending :=
  let file := c.path.render
  if c.path.holdsTerminator then .crash "" "" (.crash unusableName)
  else
    match c with
    | .check _ verbose fixme json =>
      match loadFile file text with
      | .error unloaded => unloaded.ending json
      | .ok p => auditAnswer file p (configOf environment verbose fixme) json fuel
    | .inspect _ =>
      match loadFile file text with
      | .error unloaded => unloaded.ending false
      | .ok p => inspectAnswer file p

end MirAudit.CommandLine
