import MirAudit.Main
import MirAudit.Node
import MirAudit.Proofs.Body.Composition
import MirAudit.Proofs.Body.Retyping
import MirAudit.Proofs.Check.Comparison
import MirAudit.Proofs.Check.Distortion
import MirAudit.Proofs.Check.EntryCalls
import MirAudit.Proofs.Check.Isolation
import MirAudit.Proofs.CommandLine.Arguments
import MirAudit.Proofs.CommandLine.Verdict
import MirAudit.Proofs.Discovery.DepthFirst
import MirAudit.Proofs.Model.Script
import MirAudit.Proofs.Program.Listed
import MirAudit.Proofs.Program.Rejected
import MirAudit.Proofs.Program.Sharing
import MirAudit.Proofs.Source.Blame
import MirAudit.Proofs.Source.Dispatch
import MirAudit.Proofs.Source.Parameters
import MirAudit.Proofs.Source.ReadBack
import MirAudit.Proofs.Source.Strings
import MirAudit.Proofs.Source.Viable
import MirAudit.Proofs.Source.WellFormed
