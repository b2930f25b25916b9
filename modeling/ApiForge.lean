import ApiForge.Code.File
import ApiForge.Code.Layout
import ApiForge.CommandLine.Option
import ApiForge.CommandLine.Parse
import ApiForge.CommandLine.Run
import ApiForge.Config.Basic
import ApiForge.Config.Check
import ApiForge.Config.Decode
import ApiForge.Config.Yaml
import ApiForge.Emission.Defaults
import ApiForge.Emission.Emitter
import ApiForge.Emission.Pipeline
import ApiForge.Emission.Run
import ApiForge.Emission.Stale
import ApiForge.Emission.Target
import ApiForge.Fault
import ApiForge.Files.Access
import ApiForge.Files.Tree
import ApiForge.Files.Writer
import ApiForge.Generated.Client
import ApiForge.Generated.Commands
import ApiForge.Generated.Database
import ApiForge.Generated.Handlers
import ApiForge.Generated.Image
import ApiForge.Generated.ModelSource
import ApiForge.Generated.Notifications
import ApiForge.Generated.Objects
import ApiForge.Generated.Package
import ApiForge.Generated.Reconcilers
import ApiForge.Generated.Routes
import ApiForge.Generated.TaggedFields
import ApiForge.Json
import ApiForge.Logging
import ApiForge.Main
import ApiForge.Model.Build
import ApiForge.Model.Group
import ApiForge.Model.Index
import ApiForge.Model.Migration
import ApiForge.Model.Object
import ApiForge.Model.Report
import ApiForge.Naming
import ApiForge.Order
import ApiForge.Path
import ApiForge.PathTemplate
import ApiForge.Project
import ApiForge.Proofs.MigrationOrder
import ApiForge.Proofs.Order
import ApiForge.Proofs.Outcomes
import ApiForge.Proofs.Outlines
import ApiForge.Proofs.Sketches
import ApiForge.Proofs.PackageUse
import ApiForge.Proofs.HandlerPackages
import ApiForge.Proofs.CommandPackages
import ApiForge.Proofs.Versions
import ApiForge.Source.Bracket
import ApiForge.Source.Declaration
import ApiForge.Source.Escape
import ApiForge.Source.Fault
import ApiForge.Source.Lexer
import ApiForge.Source.Marker
import ApiForge.Source.Struct
import ApiForge.Source.Tag
import ApiForge.Source.Token
import ApiForge.Text.Blank
import ApiForge.Text.CaseTables
import ApiForge.Text.Casing
import ApiForge.Text.Cluster
import ApiForge.Text.ClusterTables
import ApiForge.Text.Graphic
import ApiForge.Text.Letters
import ApiForge.Text.Plural
import ApiForge.Text.Quoted
import ApiForge.Text.Ranges
import ApiForge.Text.Utf8
import ApiForge.Text.Words
import ApiForge.Version
import ApiForge.Workspace
import ApiForge.Yaml.Cursor
import ApiForge.Yaml.Document
import ApiForge.Yaml.Folding
import ApiForge.Yaml.Lexer
import ApiForge.Yaml.Node
import ApiForge.Yaml.Scalar
import ApiForge.Yaml.Token
import ApiForge.Proofs.Build
import ApiForge.Proofs.Groups
import ApiForge.Proofs.Index
import ApiForge.Proofs.Partition
import ApiForge.Proofs.Identifiers
import ApiForge.Proofs.Collisions
import ApiForge.Proofs.Declared
import ApiForge.Proofs.Repetition
import ApiForge.Proofs.Success
import ApiForge.Proofs.Frames
import ApiForge.Proofs.Marks
import ApiForge.Proofs.Casing
import ApiForge.Proofs.RuntimeNames
import ApiForge.Proofs.Templates
import ApiForge.Proofs.Overlap
import ApiForge.Proofs.Emitters
import ApiForge.Proofs.Runs
import ApiForge.Proofs.Endings
import ApiForge.Proofs.Artifacts
import ApiForge.Proofs.Pruning
import ApiForge.Proofs.Slices
import ApiForge.Proofs.Sites
import ApiForge.Proofs.Directories
import ApiForge.Proofs.Clashes
import ApiForge.Proofs.Declarations
import ApiForge.Proofs.References
import ApiForge.Proofs.LatestObjects
import ApiForge.Proofs.Contents
import ApiForge.Proofs.Linking
import ApiForge.Proofs.Imports
import ApiForge.Proofs.Names
import ApiForge.Proofs.DeclaredOnce
import ApiForge.Proofs.NamesApart
import ApiForge.Proofs.Sources
import ApiForge.Proofs.Descent
import ApiForge.Proofs.Drafts
import ApiForge.Proofs.Dotless
import ApiForge.Proofs.Growth
import ApiForge.Proofs.Staleness
import ApiForge.Proofs.DryRuns
import ApiForge.Proofs.Foresight
import ApiForge.Proofs.Convergence
import ApiForge.Proofs.PartialRuns
import ApiForge.Proofs.Ownership
import ApiForge.Proofs.Synchronization
import ApiForge.Proofs.Edits
import ApiForge.Proofs.Containment
import ApiForge.Proofs.Encoding
import ApiForge.Proofs.DocComments
import ApiForge.Proofs.Lexemes
import ApiForge.Proofs.StructLines
import ApiForge.Proofs.Spans
import ApiForge.Proofs.Nesting
import ApiForge.Proofs.Items
import ApiForge.Proofs.Provenance
import ApiForge.Proofs.DocAttachment
import ApiForge.Proofs.TypeSyntax
import ApiForge.Proofs.Layouts
import ApiForge.Proofs.StructReading
import ApiForge.Proofs.SourceReading
import ApiForge.Proofs.StubSources
import ApiForge.Proofs.Failures
import ApiForge.Proofs.MirroredSources
import ApiForge.Proofs.Scaffolding
import ApiForge.Proofs.Rebasing
import ApiForge.Proofs.Extensions
import ApiForge.Proofs.Scanning
import ApiForge.Proofs.Brackets
import ApiForge.Proofs.Pieces
import ApiForge.Proofs.DeclaredTypes
import ApiForge.Proofs.LineEnds
import ApiForge.Proofs.LineWords
import ApiForge.Proofs.Downwards
import ApiForge.Proofs.Locality
import ApiForge.Proofs.SkippedDeclarations
import ApiForge.Proofs.Semicolons
import ApiForge.Proofs.Escapes
import ApiForge.Proofs.Quotation
import ApiForge.Proofs.Tags
import ApiForge.Proofs.Policies
import ApiForge.Proofs.Handovers
import ApiForge.Proofs.Leftovers
import ApiForge.Proofs.LatestVersions
import ApiForge.Proofs.Rearrangements
import ApiForge.Proofs.Matching
import ApiForge.Proofs.WriteHistory
import ApiForge.Proofs.ListingOrder
import ApiForge.Proofs.VersionOrder
import ApiForge.Proofs.FirstFaults
import ApiForge.Proofs.Pairing
import ApiForge.Proofs.ImportUse
import ApiForge.Proofs.NeededNames
import ApiForge.Proofs.ExactImports
import ApiForge.Proofs.ModuleDirective
