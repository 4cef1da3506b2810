import HybridBuild.Action.Resolve
import HybridBuild.Action.Statement
import HybridBuild.Action.Table
import HybridBuild.Arch
import HybridBuild.Bazel.Paths
import HybridBuild.Bazel.Runner
import HybridBuild.Bazel.Session
import HybridBuild.Build.Basic
import HybridBuild.Build.Splice
import HybridBuild.Cli.Command
import HybridBuild.Cli.Run
import HybridBuild.Digraph.Basic
import HybridBuild.Digraph.Layers
import HybridBuild.Digraph.TopoSort
import HybridBuild.Facts.Basic
import HybridBuild.Facts.Source
import HybridBuild.Files.Digest
import HybridBuild.Files.Sha256
import HybridBuild.Files.Tree
import HybridBuild.Json.Decode
import HybridBuild.Json.Pretty
import HybridBuild.Json.Token
import HybridBuild.Json.Value
import HybridBuild.Main
import HybridBuild.Module.Basic
import HybridBuild.Module.Decode
import HybridBuild.Module.Graph
import HybridBuild.Module.Indexed
import HybridBuild.Ninja.Graph
import HybridBuild.Ninja.Indexed
import HybridBuild.Ninja.Manifest
import HybridBuild.Ninja.Rule
import HybridBuild.Path
import HybridBuild.Query.Answers
import HybridBuild.Query.Fact
import HybridBuild.Query.Kind
import HybridBuild.Request.Basic
import HybridBuild.Request.Ledger
import HybridBuild.Scripts.Basic
import HybridBuild.Scripts.Template
import HybridBuild.Scripts.Write
import HybridBuild.Shell
import HybridBuild.Text.Blank
import HybridBuild.Text.Cut
import HybridBuild.Text.Hidden
import HybridBuild.Text.Lines
import HybridBuild.Text.Quoted
import HybridBuild.Text.Utf8
import HybridBuild.Unmet
import HybridBuild.Variant.Basic
import HybridBuild.Variant.Copy
import HybridBuild.Variant.Plan
import HybridBuild.Proofs.Bazel.Invocation
import HybridBuild.Proofs.Bazel.Settled
import HybridBuild.Proofs.Bazel.Uses
import HybridBuild.Proofs.Build.TwoPasses
import HybridBuild.Proofs.Digraph.Layers
import HybridBuild.Proofs.Digraph.TopoSort
import HybridBuild.Proofs.Module.Waves
import HybridBuild.Proofs.Query.Answers
import HybridBuild.Proofs.Query.Wire
import HybridBuild.Proofs.Request.Ledger
import HybridBuild.Proofs.Scripts.Checks
import HybridBuild.Proofs.Text.Cut
import HybridBuild.Proofs.Text.Lines
import HybridBuild.Proofs.Variant.Requests
import HybridBuild.Proofs.Digraph.Acyclic
import HybridBuild.Proofs.Digraph.Entries
import HybridBuild.Proofs.Digraph.Backward
import HybridBuild.Proofs.Ninja.Order
import HybridBuild.Proofs.Action.Expand
import HybridBuild.Proofs.Action.Memory
import HybridBuild.Proofs.Action.Acceptance
import HybridBuild.Proofs.Module.Accepted
import HybridBuild.Proofs.Variant.Solution
import HybridBuild.Proofs.Variant.Recursion
import HybridBuild.Proofs.Ninja.Dirt
import HybridBuild.Proofs.Build.Splice
import HybridBuild.Proofs.Facts.Source
import HybridBuild.Proofs.Build.Outcome
import HybridBuild.Proofs.Build.Wiring
import HybridBuild.Proofs.Variant.Alike
import HybridBuild.Proofs.Variant.Locality
import HybridBuild.Proofs.Build.Locality
import HybridBuild.Proofs.Build.Disabled
import HybridBuild.Proofs.Ninja.Indexed
import HybridBuild.Proofs.Ninja.RoundTrip
import HybridBuild.Proofs.Build.Command
import HybridBuild.Proofs.Scripts.Asked
import HybridBuild.Proofs.Variant.Faults
import HybridBuild.Proofs.Build.Faults
import HybridBuild.Proofs.Build.Identifiers
import HybridBuild.Proofs.Text.Blank
import HybridBuild.Proofs.Action.Statement
import HybridBuild.Proofs.Build.Acceptance
import HybridBuild.Proofs.Build.Result
import HybridBuild.Proofs.Files.Walk
import HybridBuild.Proofs.Files.Writes
import HybridBuild.Proofs.Scripts.Written
import HybridBuild.Proofs.Bazel.Files
import HybridBuild.Proofs.Build.Files
import HybridBuild.Proofs.Query.Settling
import HybridBuild.Proofs.Action.Expansion
import HybridBuild.Proofs.Build.Cycles
import HybridBuild.Proofs.Bazel.PackagePath
import HybridBuild.Proofs.Digraph.Depth
import HybridBuild.Proofs.Module.Depth
import HybridBuild.Proofs.Ninja.Acceptance
import HybridBuild.Proofs.Shell.Grammar
import HybridBuild.Proofs.Shell.Words
import HybridBuild.Proofs.Action.Words
import HybridBuild.Proofs.Shell.Verbatim
import HybridBuild.Proofs.Build.Anchored
import HybridBuild.Proofs.Bazel.Failure
import HybridBuild.Proofs.Facts.Written
import HybridBuild.Proofs.Variant.Copies
import HybridBuild.Proofs.Files.Listing
import HybridBuild.Proofs.Ninja.Depfile
import HybridBuild.Proofs.Action.Errors
import HybridBuild.Proofs.Scripts.Questions
import HybridBuild.Proofs.Module.Faults
import HybridBuild.Proofs.Module.Indexed
import HybridBuild.Proofs.Action.Climb
import HybridBuild.Proofs.Request.Uses
import HybridBuild.Proofs.Request.Sharing
