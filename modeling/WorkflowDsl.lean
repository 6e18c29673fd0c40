import WorkflowDsl.Codec.Basic
import WorkflowDsl.Codec.Collection
import WorkflowDsl.Codec.Keyed
import WorkflowDsl.Codec.Record
import WorkflowDsl.Collection.Entries
import WorkflowDsl.Collection.NamedMap
import WorkflowDsl.Collection.OneOf
import WorkflowDsl.Collection.OrderedMap
import WorkflowDsl.Document.Format
import WorkflowDsl.Document.Json.Parser
import WorkflowDsl.Document.Json.Printer
import WorkflowDsl.Document.Node
import WorkflowDsl.Document.Pointer
import WorkflowDsl.Document.Yaml.Parser
import WorkflowDsl.Document.Yaml.Plain
import WorkflowDsl.Document.Yaml.Printer
import WorkflowDsl.Document.Yaml.Scalar
import WorkflowDsl.Document.Yaml.Token
import WorkflowDsl.Document.Yaml.Token.Scalar
import WorkflowDsl.Document.Yaml.Token.Scanner
import WorkflowDsl.Document.Yaml.Token.Tag
import WorkflowDsl.Document.Yaml.Tree
import WorkflowDsl.Draft.Authentication
import WorkflowDsl.Draft.Event
import WorkflowDsl.Draft.Problem
import WorkflowDsl.Draft.Process
import WorkflowDsl.Draft.Resource
import WorkflowDsl.Draft.Script.Basic
import WorkflowDsl.Draft.Script.Part
import WorkflowDsl.Draft.Script.Task
import WorkflowDsl.Draft.Script.Workflow
import WorkflowDsl.Draft.Task
import WorkflowDsl.Draft.Workflow
import WorkflowDsl.Duration
import WorkflowDsl.Error
import WorkflowDsl.Format.Expression
import WorkflowDsl.Format.Name
import WorkflowDsl.Format.Period
import WorkflowDsl.Format.SemVer
import WorkflowDsl.Format.Uri
import WorkflowDsl.Legacy.Action
import WorkflowDsl.Legacy.Declaration
import WorkflowDsl.Legacy.Draft
import WorkflowDsl.Legacy.State
import WorkflowDsl.Legacy.Transition
import WorkflowDsl.Legacy.Workflow
import WorkflowDsl.Model.Authentication
import WorkflowDsl.Model.Call
import WorkflowDsl.Model.Component
import WorkflowDsl.Model.DataModel
import WorkflowDsl.Model.Event
import WorkflowDsl.Model.Flow
import WorkflowDsl.Model.Problem
import WorkflowDsl.Model.Process
import WorkflowDsl.Model.Resource
import WorkflowDsl.Model.Retry
import WorkflowDsl.Model.Task
import WorkflowDsl.Model.TaskKind
import WorkflowDsl.Model.Validation
import WorkflowDsl.Model.Workflow
import WorkflowDsl.Numeric.Binary64
import WorkflowDsl.Proofs.Check
import WorkflowDsl.Proofs.Codec.Basic
import WorkflowDsl.Proofs.Codec.Collection
import WorkflowDsl.Proofs.Codec.Distinctness
import WorkflowDsl.Proofs.Codec.Equality
import WorkflowDsl.Proofs.Codec.Exact
import WorkflowDsl.Proofs.Codec.Keyed
import WorkflowDsl.Proofs.Codec.Record
import WorkflowDsl.Proofs.Codec.Reordering
import WorkflowDsl.Proofs.Codec.Through
import WorkflowDsl.Proofs.Codec.Union
import WorkflowDsl.Proofs.Collection.Agreement
import WorkflowDsl.Proofs.Collection.Entries
import WorkflowDsl.Proofs.Document.Editing
import WorkflowDsl.Proofs.Document.Node
import WorkflowDsl.Proofs.Document.Parsing
import WorkflowDsl.Proofs.Document.Pointer
import WorkflowDsl.Proofs.Document.PointerText
import WorkflowDsl.Proofs.Document.Reordering
import WorkflowDsl.Proofs.Document.Splitting
import WorkflowDsl.Proofs.Document.Substitution
import WorkflowDsl.Proofs.Document.Texts
import WorkflowDsl.Proofs.Draft.Feeding
import WorkflowDsl.Proofs.Draft.Oversight
import WorkflowDsl.Proofs.Draft.RoundTrip
import WorkflowDsl.Proofs.Draft.Strictness
import WorkflowDsl.Proofs.Draft.TaskOversight
import WorkflowDsl.Proofs.Duration.Length
import WorkflowDsl.Proofs.Duration.Reading
import WorkflowDsl.Proofs.Format.Period
import WorkflowDsl.Proofs.Format.SemVer
import WorkflowDsl.Proofs.Legacy.Graph
import WorkflowDsl.Proofs.Legacy.KeyOrder
import WorkflowDsl.Proofs.Legacy.Reordering
import WorkflowDsl.Proofs.Legacy.RoundTrip
import WorkflowDsl.Proofs.Legacy.Stable
import WorkflowDsl.Proofs.Legacy.State
import WorkflowDsl.Proofs.Model.Cardinality
import WorkflowDsl.Proofs.Model.Distinctness
import WorkflowDsl.Proofs.Model.Durations
import WorkflowDsl.Proofs.Model.Jumps
import WorkflowDsl.Proofs.Model.Lossless
import WorkflowDsl.Proofs.Model.Nesting
import WorkflowDsl.Proofs.Model.Origin
import WorkflowDsl.Proofs.Model.Placement
import WorkflowDsl.Proofs.Model.Recoverable
import WorkflowDsl.Proofs.Model.RecoverablePart
import WorkflowDsl.Proofs.Model.RecoverableTask
import WorkflowDsl.Proofs.Model.References
import WorkflowDsl.Proofs.Model.Reordering
import WorkflowDsl.Proofs.Model.RoundTrip
import WorkflowDsl.Proofs.Model.Selection
import WorkflowDsl.Proofs.Model.Task
import WorkflowDsl.Proofs.Model.TaskKind
import WorkflowDsl.Proofs.Model.Template
import WorkflowDsl.Proofs.Model.Validation
import WorkflowDsl.Proofs.Model.Walk
import WorkflowDsl.Proofs.Reader.Absolute
import WorkflowDsl.Proofs.Reader.Blanking
import WorkflowDsl.Proofs.Reader.Collecting
import WorkflowDsl.Proofs.Reader.Differing
import WorkflowDsl.Proofs.Reader.Idempotence
import WorkflowDsl.Proofs.Reader.Inlining
import WorkflowDsl.Proofs.Reader.Leaving
import WorkflowDsl.Proofs.Reader.LegacyReplacing
import WorkflowDsl.Proofs.Reader.LegacyResolution
import WorkflowDsl.Proofs.Reader.Likewise
import WorkflowDsl.Proofs.Reader.Loading
import WorkflowDsl.Proofs.Reader.Mask
import WorkflowDsl.Proofs.Reader.Outcome
import WorkflowDsl.Proofs.Reader.PartSurvival
import WorkflowDsl.Proofs.Reader.Payload
import WorkflowDsl.Proofs.Reader.Position
import WorkflowDsl.Proofs.Reader.Provenance
import WorkflowDsl.Proofs.Reader.ReadInlined
import WorkflowDsl.Proofs.Reader.Rebasing
import WorkflowDsl.Proofs.Reader.Recording
import WorkflowDsl.Proofs.Reader.Reference
import WorkflowDsl.Proofs.Reader.Replacement
import WorkflowDsl.Proofs.Reader.Replacing
import WorkflowDsl.Proofs.Reader.Resolution
import WorkflowDsl.Proofs.Reader.Revision
import WorkflowDsl.Proofs.Reader.Rewriting
import WorkflowDsl.Proofs.Reader.Schemas
import WorkflowDsl.Proofs.Reader.Serving
import WorkflowDsl.Proofs.Reader.Sources
import WorkflowDsl.Proofs.Reader.Survival
import WorkflowDsl.Proofs.Reader.TaskSchemas
import WorkflowDsl.Proofs.Reader.TaskSurvival
import WorkflowDsl.Proofs.Reader.Validity
import WorkflowDsl.Proofs.Reordering
import WorkflowDsl.Proofs.Unions
import WorkflowDsl.Proofs.Url.Authority
import WorkflowDsl.Proofs.Url.Host
import WorkflowDsl.Proofs.Url.Restriction
import WorkflowDsl.Proofs.Url.Splitting
import WorkflowDsl.Proofs.Url.Trimming
import WorkflowDsl.Reader.Error
import WorkflowDsl.Reader.Fetch
import WorkflowDsl.Reader.JsonSchema
import WorkflowDsl.Reader.Position
import WorkflowDsl.Reader.Reader
import WorkflowDsl.Reader.Reference
import WorkflowDsl.Reader.Resolution
import WorkflowDsl.Reader.Settings
import WorkflowDsl.Text.Blank
import WorkflowDsl.Text.Digit
import WorkflowDsl.Text.Quoted
import WorkflowDsl.Url.Basic
import WorkflowDsl.Url.Domain
import WorkflowDsl.Url.FilePath
import WorkflowDsl.Url.Host
import WorkflowDsl.Url.Parser
import WorkflowDsl.Url.Percent
import WorkflowDsl.Url.Punycode
import WorkflowDsl.Writer
import WorkflowDsl.Proofs.Duration.Length
import WorkflowDsl.Proofs.Codec.NamedMap
import WorkflowDsl.Proofs.Codec.Slot
import WorkflowDsl.Proofs.Slots
import WorkflowDsl.Proofs.Draft.Verdict
import WorkflowDsl.Proofs.Draft.Gathering
import WorkflowDsl.Proofs.Draft.Visits
import WorkflowDsl.Proofs.Draft.Places
import WorkflowDsl.Proofs.Codec.Rereading
import WorkflowDsl.Proofs.Model.CallViews
import WorkflowDsl.Proofs.Format.Name
import WorkflowDsl.Proofs.Draft.Listening
import WorkflowDsl.Proofs.Model.Violations
import WorkflowDsl.Proofs.Model.Diagnostics
import WorkflowDsl.Proofs.Codec.Part
import WorkflowDsl.Proofs.Model.Absence
