import TemplateCompiler.Main
import TemplateCompiler.Script
import TemplateCompiler.Proofs.Disk.Growth
import TemplateCompiler.Proofs.Desk.Basic
import TemplateCompiler.Proofs.Destination.Content
import TemplateCompiler.Proofs.Session.Places
import TemplateCompiler.Proofs.Session.Depicts
import TemplateCompiler.Proofs.Outcome
import TemplateCompiler.Proofs.Session.Blocks
import TemplateCompiler.Proofs.Transcript.Passage
import TemplateCompiler.Proofs.Transcript.Reader
import TemplateCompiler.Proofs.Transcript.Diagnosed
import TemplateCompiler.Proofs.Transcript.Mirrors
import TemplateCompiler.Proofs.Transcript.Filters
import TemplateCompiler.Proofs.Transcript.Blocks
import TemplateCompiler.Proofs.Transcript.Draining
import TemplateCompiler.Proofs.Transcript.Turns
import TemplateCompiler.Proofs.Inheritance.Outline
import TemplateCompiler.Proofs.Transcript.Compiling
import TemplateCompiler.Proofs.Transcript.Course
import TemplateCompiler.Proofs.Transcript.Slots
import TemplateCompiler.Proofs.Inheritance.Chain
import TemplateCompiler.Proofs.Session.Lookup
import TemplateCompiler.Proofs.Transcript.Budget
import TemplateCompiler.Proofs.Value.Literal
import TemplateCompiler.Proofs.Value.Token
import TemplateCompiler.Proofs.Value.Sealed
import TemplateCompiler.Proofs.RawCode.Extent
import TemplateCompiler.Proofs.RawCode.Ink
import TemplateCompiler.Proofs.RawCode.Artifact
import TemplateCompiler.Proofs.Flow.Basic
import TemplateCompiler.Proofs.Flow.Slots
import TemplateCompiler.Proofs.Flow.Artifact
import TemplateCompiler.Proofs.Path.Staying
import TemplateCompiler.Proofs.Session.Confined
import TemplateCompiler.Proofs.Rendering.Scanning
import TemplateCompiler.Proofs.Rendering.Handlers
import TemplateCompiler.Proofs.Rendering.Draining
import TemplateCompiler.Proofs.Rendering.Artifact
import TemplateCompiler.Proofs.Flow.Constructs
import TemplateCompiler.Proofs.Flow.Layers
import TemplateCompiler.Proofs.Flow.Structure
import TemplateCompiler.Proofs.Value.Spans
import TemplateCompiler.Proofs.Value.Shielded
import TemplateCompiler.Proofs.Session.Operations
import TemplateCompiler.Proofs.Moment.Basic
import TemplateCompiler.Proofs.Moment.Requests
import TemplateCompiler.Proofs.Moment.Moves
import TemplateCompiler.Proofs.Inheritance.Lineage
import TemplateCompiler.Proofs.Inheritance.Descent
import TemplateCompiler.Proofs.Inheritance.Ending
import TemplateCompiler.Proofs.Rendering.Markers
import TemplateCompiler.Proofs.Rendering.Verbatim
import TemplateCompiler.Proofs.Rendering.Opaque
import TemplateCompiler.Proofs.Disk.Trees
import TemplateCompiler.Proofs.Desk.Nested
import TemplateCompiler.Proofs.Moment.Blocks
import TemplateCompiler.Proofs.Moment.Trail
import TemplateCompiler.Proofs.Moment.Matching
import TemplateCompiler.Proofs.Cache.Alike
import TemplateCompiler.Proofs.Cache.Twins
import TemplateCompiler.Proofs.Cache.Actions
import TemplateCompiler.Proofs.Cache.Handlers
import TemplateCompiler.Proofs.Cache.Moments
import TemplateCompiler.Proofs.Cache.Boundary
import TemplateCompiler.Proofs.Cache.Independence
import TemplateCompiler.Proofs.Session.Changes
import TemplateCompiler.Proofs.Session.Writers
import TemplateCompiler.Proofs.Session.Lasting
import TemplateCompiler.Proofs.Moment.Draining
import TemplateCompiler.Proofs.Nesting.Brackets
import TemplateCompiler.Proofs.Nesting.Actions
import TemplateCompiler.Proofs.Nesting.Handlers
import TemplateCompiler.Proofs.Nesting.Acceptance
import TemplateCompiler.Proofs.Handling.Kinds
import TemplateCompiler.Proofs.Handling.Uses
import TemplateCompiler.Proofs.Handling.Libraries
import TemplateCompiler.Proofs.Handling.Queue
import TemplateCompiler.Proofs.Handling.Scheduling
import TemplateCompiler.Proofs.Handling.Temporaries
import TemplateCompiler.Proofs.RawCode.Exact
import TemplateCompiler.Proofs.Scanning.Grammar
import TemplateCompiler.Proofs.Text.Ascii
import TemplateCompiler.Proofs.Scanning.Defusing
import TemplateCompiler.Proofs.Session.Spelling
import TemplateCompiler.Proofs.Handling.MainArtifact
import TemplateCompiler.Proofs.Path.Starting
import TemplateCompiler.Proofs.Path.Jail
import TemplateCompiler.Proofs.Parameters.Reading
import TemplateCompiler.Proofs.Parameters.Splitting
import TemplateCompiler.Proofs.Scanning.Balance
import TemplateCompiler.Proofs.Value.Resolution
import TemplateCompiler.Proofs.Value.Accepted
import TemplateCompiler.Proofs.Value.Escaping
import TemplateCompiler.Proofs.Handling.Standard
import TemplateCompiler.Proofs.Complaints.Here
import TemplateCompiler.Proofs.Complaints.Lines
import TemplateCompiler.Proofs.Complaints.Located
import TemplateCompiler.Proofs.Pipeline.Machine
import TemplateCompiler.Proofs.Pipeline.Emission
import TemplateCompiler.Proofs.Pipeline.Counting
import TemplateCompiler.Proofs.Path.Normal
import TemplateCompiler.Proofs.SearchPath.FirstMatch
import TemplateCompiler.Proofs.SearchPath.Levels
import TemplateCompiler.Proofs.SearchPath.Refusals
import TemplateCompiler.Proofs.Session.Pausing
import TemplateCompiler.Proofs.Session.FanOut
import TemplateCompiler.Proofs.Session.Permits
import TemplateCompiler.Proofs.Handling.Changing
import TemplateCompiler.Proofs.Disk.Making
import TemplateCompiler.Proofs.Handling.Footprint
import TemplateCompiler.Proofs.Handling.Coexistence
import TemplateCompiler.Proofs.Disk.Listing
import TemplateCompiler.Proofs.Handling.AllTemplates
import TemplateCompiler.Proofs.Scanning.Marker
import TemplateCompiler.Proofs.Nesting.Intact
import TemplateCompiler.Proofs.Session.Beginning
import TemplateCompiler.Proofs.Handling.Offers
import TemplateCompiler.Proofs.Handling.Acts
import TemplateCompiler.Proofs.Handling.Distinct
import TemplateCompiler.Proofs.Value.Quoted
import TemplateCompiler.Proofs.Text.Cutting
