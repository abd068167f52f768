import ShaderBuild.Build.Basic
import ShaderBuild.Build.Job
import ShaderBuild.Build.Operation
import ShaderBuild.Build.Pool
import ShaderBuild.Cache.Diff
import ShaderBuild.Cache.Format
import ShaderBuild.Cache.Record
import ShaderBuild.Checksum
import ShaderBuild.CommandLine
import ShaderBuild.Compiler.Backend
import ShaderBuild.Compiler.Command
import ShaderBuild.Compiler.Process
import ShaderBuild.Counting
import ShaderBuild.Directive
import ShaderBuild.Engine.InputElement
import ShaderBuild.Engine.Member
import ShaderBuild.Error
import ShaderBuild.FileTree.Access
import ShaderBuild.FileTree.Basic
import ShaderBuild.FileTree.Edit
import ShaderBuild.FileTree.Walk
import ShaderBuild.Hlsl.Declaration
import ShaderBuild.Hlsl.Scanner
import ShaderBuild.Hlsl.Struct
import ShaderBuild.Hlsl.Token
import ShaderBuild.Include.Graph
import ShaderBuild.Include.Line
import ShaderBuild.Json.Printer
import ShaderBuild.Json.Reader
import ShaderBuild.Json.Value
import ShaderBuild.Kdl.Configuration
import ShaderBuild.Kdl.Node
import ShaderBuild.Kdl.Reader
import ShaderBuild.Main
import ShaderBuild.Notice
import ShaderBuild.Path
import ShaderBuild.Program
import ShaderBuild.Proofs.Action
import ShaderBuild.Proofs.Agreement
import ShaderBuild.Proofs.Answers
import ShaderBuild.Proofs.Build.Calls
import ShaderBuild.Proofs.Build.Freshness
import ShaderBuild.Proofs.Build.History
import ShaderBuild.Proofs.Build.Idle
import ShaderBuild.Proofs.Build.Jobs
import ShaderBuild.Proofs.Build.Leftovers
import ShaderBuild.Proofs.Build.Loss
import ShaderBuild.Proofs.Build.Memory
import ShaderBuild.Proofs.Build.Phases
import ShaderBuild.Proofs.Build.Pool
import ShaderBuild.Proofs.Build.Rebuild
import ShaderBuild.Proofs.Build.Rebuilt
import ShaderBuild.Proofs.Build.Registered
import ShaderBuild.Proofs.Build.Respect
import ShaderBuild.Proofs.Build.Retry
import ShaderBuild.Proofs.Build.Scanned
import ShaderBuild.Proofs.Build.SourceFault
import ShaderBuild.Proofs.Build.Sources
import ShaderBuild.Proofs.Build.Standing
import ShaderBuild.Proofs.Build.Tidy
import ShaderBuild.Proofs.Build.Truthful
import ShaderBuild.Proofs.Build.Unchanged
import ShaderBuild.Proofs.Build.UpToDate
import ShaderBuild.Proofs.Build.Validation
import ShaderBuild.Proofs.Cache.Deletion
import ShaderBuild.Proofs.Cache.Diff
import ShaderBuild.Proofs.Cache.Due
import ShaderBuild.Proofs.Cache.File
import ShaderBuild.Proofs.Cache.Outputs
import ShaderBuild.Proofs.Cache.Persistence
import ShaderBuild.Proofs.Cache.Propagation
import ShaderBuild.Proofs.Cache.Record
import ShaderBuild.Proofs.Cache.RoundTrip
import ShaderBuild.Proofs.Cache.Vouch
import ShaderBuild.Proofs.CommandLine
import ShaderBuild.Proofs.Compiler.Declaration
import ShaderBuild.Proofs.Compiler.Law
import ShaderBuild.Proofs.Compiler.Quoting
import ShaderBuild.Proofs.Directive.Accepted
import ShaderBuild.Proofs.Directive.Header
import ShaderBuild.Proofs.Directive.RoundTrip
import ShaderBuild.Proofs.Directive.Value
import ShaderBuild.Proofs.Failure
import ShaderBuild.Proofs.FileTree.Alike
import ShaderBuild.Proofs.FileTree.Change
import ShaderBuild.Proofs.FileTree.Goal
import ShaderBuild.Proofs.FileTree.Overwrite
import ShaderBuild.Proofs.FileTree.Removal
import ShaderBuild.Proofs.FileTree.Walk
import ShaderBuild.Proofs.Hlsl.FieldType
import ShaderBuild.Proofs.Hlsl.Fragment
import ShaderBuild.Proofs.Hlsl.Gap
import ShaderBuild.Proofs.Hlsl.Layout
import ShaderBuild.Proofs.Hlsl.Line
import ShaderBuild.Proofs.Hlsl.LineEnding
import ShaderBuild.Proofs.Hlsl.Outline
import ShaderBuild.Proofs.Hlsl.Place
import ShaderBuild.Proofs.Hlsl.Reflection
import ShaderBuild.Proofs.Hlsl.Scanner
import ShaderBuild.Proofs.Hlsl.Separator
import ShaderBuild.Proofs.Hlsl.Span
import ShaderBuild.Proofs.Hlsl.Token
import ShaderBuild.Proofs.Include.Closure
import ShaderBuild.Proofs.Include.Cycle
import ShaderBuild.Proofs.Include.Edge
import ShaderBuild.Proofs.Include.Line
import ShaderBuild.Proofs.Include.Preorder
import ShaderBuild.Proofs.Include.Resolution
import ShaderBuild.Proofs.Include.Sources
import ShaderBuild.Proofs.Json.RoundTrip
import ShaderBuild.Proofs.Path.Canonical
import ShaderBuild.Proofs.Path.Component
import ShaderBuild.Proofs.Path.Location
import ShaderBuild.Proofs.Path.Order
import ShaderBuild.Proofs.Source.Duplicates
import ShaderBuild.Proofs.Source.Index
import ShaderBuild.Proofs.Source.LineEnding
import ShaderBuild.Proofs.Source.Listing
import ShaderBuild.Proofs.Source.Output
import ShaderBuild.Proofs.Source.Permutation
import ShaderBuild.Proofs.Source.Product
import ShaderBuild.Proofs.Source.Scan
import ShaderBuild.Proofs.Source.Set
import ShaderBuild.Proofs.Target.ConstantBuffer
import ShaderBuild.Proofs.Target.Failure
import ShaderBuild.Proofs.Target.Header
import ShaderBuild.Proofs.Target.Marker
import ShaderBuild.Proofs.Target.Region
import ShaderBuild.Proofs.Target.Registration
import ShaderBuild.Proofs.Target.Rewrite
import ShaderBuild.Proofs.Target.Splice
import ShaderBuild.Proofs.Text.ByteOrder
import ShaderBuild.Proofs.Text.Line
import ShaderBuild.Proofs.Text.LineEnding
import ShaderBuild.Proofs.Text.Word
import ShaderBuild.Session
import ShaderBuild.Settings
import ShaderBuild.Sorting
import ShaderBuild.Source.File
import ShaderBuild.Source.Index
import ShaderBuild.Source.Scan
import ShaderBuild.Source.Set
import ShaderBuild.Target.Header
import ShaderBuild.Target.Region
import ShaderBuild.Text.Blank
import ShaderBuild.Text.Fold
import ShaderBuild.Text.Line
import ShaderBuild.Text.Search
import ShaderBuild.Text.Slice
import ShaderBuild.Text.Utf8
import ShaderBuild.Text.Word
