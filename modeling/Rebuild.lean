import Rebuild.Artifacts
import Rebuild.Build
import Rebuild.CommandLine.Answer
import Rebuild.CommandLine.Consulted
import Rebuild.CommandLine.Grammar
import Rebuild.CommandLine.Help
import Rebuild.CommandLine.Matching
import Rebuild.CommandLine.Request
import Rebuild.Companions
import Rebuild.CompiledModule
import Rebuild.Config
import Rebuild.Declarations
import Rebuild.Error
import Rebuild.FileTree.Access
import Rebuild.FileTree.Basic
import Rebuild.FileTree.Changes
import Rebuild.FileTree.Resolve
import Rebuild.Files
import Rebuild.ForeignImport
import Rebuild.Main
import Rebuild.ModuleMap
import Rebuild.ModuleName
import Rebuild.Number.Binary64
import Rebuild.Number.Decimal
import Rebuild.Number.Rounding
import Rebuild.OrderedMap
import Rebuild.Output
import Rebuild.Path
import Rebuild.Project
import Rebuild.Proofs.Agreement
import Rebuild.Proofs.CompanionCopies
import Rebuild.Proofs.CompanionEdits
import Rebuild.Proofs.CompanionRules
import Rebuild.Proofs.Contents
import Rebuild.Proofs.Directories
import Rebuild.Proofs.Failures
import Rebuild.Proofs.FileNames
import Rebuild.Proofs.Fixpoint
import Rebuild.Proofs.Footprint
import Rebuild.Proofs.FurtherCompanions
import Rebuild.Proofs.Growth
import Rebuild.Proofs.Inspection
import Rebuild.Proofs.InterfaceRoundTrip
import Rebuild.Proofs.Layout
import Rebuild.Proofs.LineReading
import Rebuild.Proofs.Lookup
import Rebuild.Proofs.ModuleEntries
import Rebuild.Proofs.ModuleLayouts
import Rebuild.Proofs.ModuleLocations
import Rebuild.Proofs.OrderIndependence
import Rebuild.Proofs.OutputLines
import Rebuild.Proofs.OutputNames
import Rebuild.Proofs.PathNormal
import Rebuild.Proofs.PrimaryWrites
import Rebuild.Proofs.Refusals
import Rebuild.Proofs.Rejections
import Rebuild.Proofs.Replay
import Rebuild.Proofs.Runs
import Rebuild.Proofs.SameWrites
import Rebuild.Proofs.Separation
import Rebuild.Proofs.SingleFiles
import Rebuild.Proofs.Staleness
import Rebuild.Proofs.StalenessRule
import Rebuild.Proofs.StatusAgreement
import Rebuild.Proofs.StatusLines
import Rebuild.Proofs.Steps
import Rebuild.Proofs.SupportFiles
import Rebuild.Proofs.TreeCalls
import Rebuild.Proofs.TwinRuns
import Rebuild.Proofs.Unpacking
import Rebuild.Proofs.WholeWrites
import Rebuild.Proofs.Writes
import Rebuild.Proofs.WrittenRequests
import Rebuild.SourceLocation
import Rebuild.Support.Payload
import Rebuild.Support.Unpack
import Rebuild.Text.Blank
import Rebuild.Text.CodePoint
import Rebuild.Text.Digit
import Rebuild.Text.LineEnd
import Rebuild.Text.Printable
import Rebuild.Text.Quoted
import Rebuild.Text.Split
import Rebuild.Text.Utf8
import Rebuild.Timestamp
import Rebuild.Value.Basic
import Rebuild.Value.Content
import Rebuild.Value.Key
import Rebuild.Value.Literal
import Rebuild.Value.Reading
import Rebuild.Workspace
