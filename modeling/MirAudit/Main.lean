import MirAudit.CommandLine.Answer

/-!
# The command line

Reads the source file and the environment, and prints the answer of a command.
-/

namespace MirAudit.CommandLine

/-- How many steps a search for instances may take. -/
def searchLimit : Nat :=
  1000000000

/-- The text that explains the command line. -/
def usageText : String :=
  "usage: check SOURCE [-v] [--fixme] [--json]\n       inspect SOURCE\n"

/-- The number of a system error, which may be given as a negative one. -/
def errorNumber (code : UInt32) : Nat :=
  min code.toNat (UInt32.size - code.toNat)

/-- The fault of a failed read, by the number of the system error where its kind leaves it open. -/
def readFaultOf : IO.Error → ReadFault
  | .noFileOrDirectory .. => .notFound
  | .permissionDenied .. => .notPermitted
  | .inappropriateType _ code _ => if errorNumber code = 20 then .notDirectory else .isDirectory
  | .invalidArgument _ code details =>
    if errorNumber code = 36 then .nameTooLong else .other details
  | error => .other (toString error)

/-- The text of a file. -/
def readSource (path : String) : IO (Except ReadFault String) := do
  try
    return .ok (← IO.FS.readFile path)
  catch error => return .error (readFaultOf error)

/-- Prints how a command ended and gives its status. -/
def printEnding : Ending → IO UInt32
  | .answer a => do
    IO.print a.stdout
    IO.eprint a.stderr
    return UInt32.ofNat a.exitCode
  | .crash stdout stderr fault => do
    IO.print stdout
    IO.eprint (stderr ++ fault.render ++ "\n")
    return 1
  | .outOfFuel => do
    IO.eprintln "the search for instances was cut off"
    return 1

end MirAudit.CommandLine

open MirAudit.CommandLine

/-- Runs the command that the arguments ask for. -/
def main (args : List String) : IO UInt32 := do
  match Command.ofArguments args with
  | .error .help =>
    IO.print usageText
    return 0
  | .error .usage =>
    IO.eprint usageText
    return 2
  | .ok command =>
    let verbose ← IO.getEnv verboseVariable
    let fixme ← IO.getEnv fixmeVariable
    let environment (name : String) : Option String :=
      if name = verboseVariable then verbose else if name = fixmeVariable then fixme else none
    let text ← readSource command.path.render
    printEnding (command.answer environment text searchLimit)
