import ResourceSafety.Main
import ResourceSafety.Command.Run
import ResourceSafety.Command.Invocation
import ResourceSafety.Command.Selection
import ResourceSafety.Command.Flag
import ResourceSafety.Watch.Change
import ResourceSafety.Watch.Targets
import ResourceSafety.Config
import ResourceSafety.Trace.Replay
import ResourceSafety.Checker.Report
import ResourceSafety.Discharge.Discharger
import ResourceSafety.Ledger.File
import ResourceSafety.Ledger.Summary
import ResourceSafety.Logic.External
import ResourceSafety.Logic.SExpr
import ResourceSafety.Version
import ResourceSafety.Logic.ClauseLearning
import ResourceSafety.Diagnostic.Engine
import ResourceSafety.Capability.Context
import ResourceSafety.Ownership.Tracker
import ResourceSafety.Source.Snippet
import ResourceSafety.Types.Registry
import ResourceSafety.Violation
import ResourceSafety.Proofs.Capability.Lifespan
import ResourceSafety.Proofs.Capability.Windows
import ResourceSafety.Proofs.Checker.Arms
import ResourceSafety.Proofs.Checker.Findings
import ResourceSafety.Proofs.Checker.Leaks
import ResourceSafety.Proofs.Command.Standing
import ResourceSafety.Proofs.Diagnostic.Limit
import ResourceSafety.Proofs.Discharge.Certificate
import ResourceSafety.Proofs.Discharge.Literal
import ResourceSafety.Proofs.Discharge.Logging
import ResourceSafety.Proofs.Discharge.Shape
import ResourceSafety.Proofs.Ledger.Saving
import ResourceSafety.Proofs.Ledger.Summary
import ResourceSafety.Proofs.Logic.GoalStack
import ResourceSafety.Proofs.Logic.Inquiry
import ResourceSafety.Proofs.Logic.Models
import ResourceSafety.Proofs.Logic.Replies
import ResourceSafety.Proofs.Ownership.Frame
import ResourceSafety.Proofs.Provenance
import ResourceSafety.Proofs.Source.Reading
import ResourceSafety.Proofs.Source.Underlining
import ResourceSafety.Proofs.Trace.Balance
import ResourceSafety.Proofs.Trace.Exactness
import ResourceSafety.Proofs.Trace.Lending
import ResourceSafety.Proofs.Trace.Strictness
import ResourceSafety.Proofs.Types.Notation
import ResourceSafety.Proofs.Violation.Key
import ResourceSafety.Proofs.Watch.Directories
