import TypeAssay.Checker.Check
import TypeAssay.Marker
import TypeAssay.Proofs.Batches
import TypeAssay.Proofs.Bounds
import TypeAssay.Proofs.Completeness
import TypeAssay.Proofs.Grouping
import TypeAssay.Proofs.Levels
import TypeAssay.Proofs.Lockstep
import TypeAssay.Proofs.Progress
import TypeAssay.Proofs.Recoveries
import TypeAssay.Proofs.Reordering
import TypeAssay.Proofs.Room
import TypeAssay.Proofs.RoundTrip
import TypeAssay.Proofs.Termination
import TypeAssay.Proofs.Transitivity
import TypeAssay.Proofs.Transparency
import TypeAssay.Report.Json
import TypeAssay.Report.Render
import TypeAssay.Settings
import TypeAssay.Proofs.Literals
import TypeAssay.Proofs.Positions
import TypeAssay.Proofs.Constituents
import TypeAssay.Proofs.Findings
import TypeAssay.Proofs.FirstDeclarations
import TypeAssay.Proofs.SourceOrder
import TypeAssay.Proofs.Unreachable
import TypeAssay.Proofs.ElementTypes
import TypeAssay.Proofs.Labels
import TypeAssay.Proofs.Excerpts
import TypeAssay.Proofs.UnionLaws
import TypeAssay.Proofs.Distribution
import TypeAssay.Proofs.Layout
import TypeAssay.Proofs.MutualComparison
import TypeAssay.Proofs.Probes
import TypeAssay.Proofs.Lengths
import TypeAssay.Proofs.DisplayedStrings
import TypeAssay.Proofs.Bigints
