import NetBalance.Config.File
import NetBalance.Linear.Tensor
import NetBalance.Log.Registry
import NetBalance.Solver.InPlace
import NetBalance.Proofs.Keys
import NetBalance.Proofs.Components
import NetBalance.Proofs.Linking
import NetBalance.Proofs.Allocation
import NetBalance.Proofs.Unfolding
import NetBalance.Proofs.Inlining
import NetBalance.Proofs.Places
import NetBalance.Proofs.Rational
import NetBalance.Proofs.Contraction
import NetBalance.Proofs.Seeds
import NetBalance.Proofs.Assembling
import NetBalance.Proofs.ByHand.Diagram
import NetBalance.Proofs.ByHand.Network
import NetBalance.Proofs.Revision
import NetBalance.Proofs.DuplicateNodes
import NetBalance.Proofs.IgnoredEdges
import NetBalance.Proofs.Scopes
import NetBalance.Proofs.Occurrences
import NetBalance.Proofs.Clashes
import NetBalance.Proofs.ReferenceCycles
import NetBalance.Proofs.Strictness
import NetBalance.Proofs.Resting
import NetBalance.Proofs.WriteBack
import NetBalance.Proofs.Reseeding
import NetBalance.Proofs.RoundTrip
import NetBalance.Proofs.Isolation
import NetBalance.Proofs.History
import NetBalance.Proofs.Exposure
import NetBalance.Proofs.Resemblance
import NetBalance.Proofs.Regrouping
import NetBalance.Proofs.Reordering
import NetBalance.Proofs.Positions
import NetBalance.Proofs.Atomicity
import NetBalance.Proofs.Failures
import NetBalance.Proofs.PartialProducts
import NetBalance.Proofs.Derivatives
import NetBalance.Proofs.Runs
import NetBalance.Proofs.Vectors
import NetBalance.Proofs.Elimination
import NetBalance.Proofs.Projection
import NetBalance.Proofs.Shape
import NetBalance.Proofs.LinearConstraints
import NetBalance.Proofs.LinearNetworks
import NetBalance.Proofs.Reports
import NetBalance.Proofs.Merging
import NetBalance.Proofs.Valueless
import NetBalance.Proofs.Means
import NetBalance.Proofs.Columns
import NetBalance.Proofs.Grammar
import NetBalance.Proofs.Singularity
import NetBalance.Proofs.Ranges
import NetBalance.Proofs.Scanning
import NetBalance.Proofs.BrokenTokens
import NetBalance.Proofs.Nesting
import NetBalance.Proofs.MergeKeys
import NetBalance.Proofs.Misreadings
import NetBalance.Proofs.Depth
import NetBalance.Proofs.Escapes
