import Fleet.Backoff
import Fleet.Client
import Fleet.Filter
import Fleet.Form.Node
import Fleet.Google.Platform
import Fleet.Group
import Fleet.Json.Parser
import Fleet.Json.Printer
import Fleet.Json.Record
import Fleet.Main
import Fleet.Memory.Platform
import Fleet.Operation
import Fleet.Platform.Script
import Fleet.Pool
import Fleet.Report
import Fleet.Text.Binary64
import Fleet.Proofs.Client.Creating
import Fleet.Proofs.Client.Permitted
import Fleet.Proofs.Client.Reclaiming
import Fleet.Proofs.Conduct.Basic
import Fleet.Proofs.Conduct.Pool
import Fleet.Proofs.Launch.Accounting
import Fleet.Proofs.Launch.Basic
import Fleet.Proofs.Launch.Canonical
import Fleet.Proofs.Launch.Frame
import Fleet.Proofs.Launch.Undo
import Fleet.Proofs.Memory.Effects
import Fleet.Proofs.Memory.Wiring
import Fleet.Proofs.Record.Basic
import Fleet.Proofs.Record.Client
import Fleet.Proofs.Record.Group
import Fleet.Proofs.Record.Orderly
import Fleet.Proofs.Record.Provision
import Fleet.Proofs.Record.Reclaim
import Fleet.Proofs.Record.Supply
import Fleet.Proofs.Record.Trace
import Fleet.Proofs.Record.Turns
import Fleet.Proofs.Session.Basic
import Fleet.Proofs.Session.Fairness
import Fleet.Proofs.Session.Keeping
import Fleet.Proofs.Session.Proceeding
import Fleet.Proofs.Session.Regular
import Fleet.Proofs.Session.Safety
import Fleet.Proofs.Teardown.Group
import Fleet.Proofs.Teardown.Node
import Fleet.Proofs.Client.Conforming
import Fleet.Proofs.Session.Integrity
import Fleet.Proofs.Memory.History
import Fleet.Proofs.Memory.Lifecycle
import Fleet.Proofs.Memory.Fingerprints
import Fleet.Proofs.Client.Interleaved
import Fleet.Proofs.Client.Ensuring
import Fleet.Proofs.Conduct.Playing
import Fleet.Proofs.Record.Undertaking
import Fleet.Proofs.Record.Phases
import Fleet.Proofs.Record.Asked
import Fleet.Proofs.Record.Untouched
import Fleet.Proofs.Record.Request
import Fleet.Proofs.Record.Absorption
import Fleet.Proofs.Record.Course
import Fleet.Proofs.Record.Persistence
import Fleet.Proofs.Record.Submission
import Fleet.Proofs.Record.Polling
import Fleet.Proofs.Record.Following
import Fleet.Proofs.Wording.TwoRuns
import Fleet.Proofs.Wording.Basic
import Fleet.Proofs.Wording.Client
import Fleet.Proofs.Wording.Node
import Fleet.Proofs.Wording.Group
import Fleet.Proofs.Load.Floor
import Fleet.Proofs.Load.Tending
import Fleet.Proofs.Load.Outstanding
import Fleet.Proofs.Load.Bound
import Fleet.Proofs.Google.Resending
import Fleet.Proofs.Json.RoundTrip
import Fleet.Proofs.Google.Shapes
import Fleet.Proofs.Record.Adoption
import Fleet.Proofs.Record.Absence
import Fleet.Proofs.Record.Retagging
import Fleet.Proofs.Client.Merging
import Fleet.Proofs.Memory.Journal
import Fleet.Proofs.Memory.Snapshots
import Fleet.Proofs.Teardown.References
import Fleet.Proofs.Google.Paging
import Fleet.Proofs.Naming.Numbering
import Fleet.Proofs.Naming.Derived
import Fleet.Proofs.Naming.Validity
import Fleet.Proofs.Record.Attempts
import Fleet.Proofs.Naming.Grammar
import Fleet.Proofs.Naming.Identifiers
import Fleet.Proofs.Google.Links
