import AssemblyPolicy.Check.Basic
import AssemblyPolicy.CommandLine.Arguments
import AssemblyPolicy.CommandLine.Command
import AssemblyPolicy.CommandLine.Run
import AssemblyPolicy.Configuration.Basic
import AssemblyPolicy.Configuration.Profile
import AssemblyPolicy.Configuration.Reader
import AssemblyPolicy.Configuration.Resolution
import AssemblyPolicy.Decimal.Double
import AssemblyPolicy.Decimal.Shortest
import AssemblyPolicy.Files.Change
import AssemblyPolicy.Files.Path
import AssemblyPolicy.Files.Tree
import AssemblyPolicy.Glob.Basic
import AssemblyPolicy.Glob.Expression
import AssemblyPolicy.Glob.Parser
import AssemblyPolicy.Glob.Set
import AssemblyPolicy.Json.Basic
import AssemblyPolicy.Json.Decoder
import AssemblyPolicy.Json.Position
import AssemblyPolicy.Json.Printer
import AssemblyPolicy.Json.Source
import AssemblyPolicy.Json.Token
import AssemblyPolicy.Main
import AssemblyPolicy.Metadata.Assembly
import AssemblyPolicy.Metadata.AssemblySet
import AssemblyPolicy.Metadata.Decoder
import AssemblyPolicy.Metadata.Defect
import AssemblyPolicy.Metadata.Encoder
import AssemblyPolicy.Metadata.Hierarchy
import AssemblyPolicy.Metadata.Loading
import AssemblyPolicy.Metadata.Name
import AssemblyPolicy.Metadata.Snapshot
import AssemblyPolicy.Policy.Basic
import AssemblyPolicy.Policy.Presence
import AssemblyPolicy.Proofs.Check.Agreement
import AssemblyPolicy.Proofs.Check.Candidates
import AssemblyPolicy.Proofs.Check.Undecided
import AssemblyPolicy.Proofs.Configuration.Entry
import AssemblyPolicy.Proofs.Configuration.Resolution
import AssemblyPolicy.Proofs.Configuration.Scope
import AssemblyPolicy.Proofs.Configuration.TypeName
import AssemblyPolicy.Proofs.Files.Components
import AssemblyPolicy.Proofs.Files.Path
import AssemblyPolicy.Proofs.Files.Tree
import AssemblyPolicy.Proofs.Glob.Set
import AssemblyPolicy.Proofs.Json.Decoding
import AssemblyPolicy.Proofs.Json.Members
import AssemblyPolicy.Proofs.Json.Parts
import AssemblyPolicy.Proofs.Json.Reading
import AssemblyPolicy.Proofs.Json.Sorted
import AssemblyPolicy.Proofs.Json.Steps
import AssemblyPolicy.Proofs.Json.Token
import AssemblyPolicy.Proofs.Metadata.Acceptance
import AssemblyPolicy.Proofs.Metadata.Declaration
import AssemblyPolicy.Proofs.Metadata.Directories
import AssemblyPolicy.Proofs.Metadata.Extension
import AssemblyPolicy.Proofs.Metadata.Hierarchy
import AssemblyPolicy.Proofs.Metadata.Insertion
import AssemblyPolicy.Proofs.Metadata.Name
import AssemblyPolicy.Proofs.Metadata.References
import AssemblyPolicy.Proofs.Metadata.Reordering
import AssemblyPolicy.Proofs.Metadata.Resolution
import AssemblyPolicy.Proofs.Metadata.RootNames
import AssemblyPolicy.Proofs.Metadata.Roundtrip
import AssemblyPolicy.Proofs.Metadata.WellFormed
import AssemblyPolicy.Proofs.Report.Annotations
import AssemblyPolicy.Proofs.Report.Canonical
import AssemblyPolicy.Proofs.Report.Comparison
import AssemblyPolicy.Proofs.Report.Composition
import AssemblyPolicy.Proofs.Report.Evaluation
import AssemblyPolicy.Proofs.Report.Fingerprint
import AssemblyPolicy.Proofs.Report.Markdown
import AssemblyPolicy.Proofs.Report.Normalization
import AssemblyPolicy.Proofs.Report.Order
import AssemblyPolicy.Proofs.Report.Path
import AssemblyPolicy.Proofs.Report.Records
import AssemblyPolicy.Proofs.Report.Roundtrip
import AssemblyPolicy.Proofs.Report.Timestamp
import AssemblyPolicy.Proofs.Report.Workflow
import AssemblyPolicy.Proofs.Result
import AssemblyPolicy.Proofs.Text.Lines
import AssemblyPolicy.Proofs.Text.Split
import AssemblyPolicy.Proofs.Verification.Basic
import AssemblyPolicy.Proofs.Verification.Coverage
import AssemblyPolicy.Proofs.Verification.DirectUse
import AssemblyPolicy.Proofs.Verification.Exposure
import AssemblyPolicy.Proofs.Verification.MoreAssemblies
import AssemblyPolicy.Proofs.Verification.Opposition
import AssemblyPolicy.Proofs.Verification.Reordering
import AssemblyPolicy.Proofs.Verification.WiderBoundaries
import AssemblyPolicy.Proofs.Walk.Calls
import AssemblyPolicy.Proofs.Walk.Comparison
import AssemblyPolicy.Proofs.Walk.History
import AssemblyPolicy.Proofs.Walk.Identity
import AssemblyPolicy.Proofs.Walk.Limits
import AssemblyPolicy.Proofs.Walk.Ownership
import AssemblyPolicy.Proofs.Walk.Presence
import AssemblyPolicy.Proofs.Walk.Progress
import AssemblyPolicy.Proofs.Walk.Search
import AssemblyPolicy.Proofs.Walk.Turn
import AssemblyPolicy.Report.Basic
import AssemblyPolicy.Report.Envelope
import AssemblyPolicy.Report.Evaluation
import AssemblyPolicy.Report.Explanation
import AssemblyPolicy.Report.Markdown
import AssemblyPolicy.Report.Normalization
import AssemblyPolicy.Report.Path
import AssemblyPolicy.Report.Severity
import AssemblyPolicy.Report.Sha256
import AssemblyPolicy.Report.Timestamp
import AssemblyPolicy.Report.View
import AssemblyPolicy.Report.Workflow
import AssemblyPolicy.Text.Blank
import AssemblyPolicy.Text.Complaint
import AssemblyPolicy.Text.Order
import AssemblyPolicy.Text.Printable
import AssemblyPolicy.Text.Quoted
import AssemblyPolicy.Text.Split
import AssemblyPolicy.Toml.Document
import AssemblyPolicy.Toml.Scalar
import AssemblyPolicy.Toml.Text
import AssemblyPolicy.Toml.Value
import AssemblyPolicy.Verification.Basic
import AssemblyPolicy.Verification.Sweep
import AssemblyPolicy.Walk.Basic
