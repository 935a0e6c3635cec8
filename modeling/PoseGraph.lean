import PoseGraph.Table
import PoseGraph.Scalar.Text
import PoseGraph.Text.Word
import PoseGraph.Text.Printable
import PoseGraph.Text.Lowercase
import PoseGraph.Value
import PoseGraph.Identifier
import PoseGraph.SubGraph
import PoseGraph.Settings
import PoseGraph.Catalog
import PoseGraph.Asset
import PoseGraph.Palette.Standard
import PoseGraph.Triangulation
import PoseGraph.Editor.Nodes
import PoseGraph.Editor.Properties
import PoseGraph.Editor.States
import PoseGraph.EvaluationOrder
import PoseGraph.Compilation
import PoseGraph.Prototype.Binary
import PoseGraph.Document.Term
import PoseGraph.Document.Layout
import PoseGraph.Document.Reader
import PoseGraph.Document.Schema
import PoseGraph.Asset.Document
import PoseGraph.Settings.Document
import PoseGraph.Editor.Saving
import PoseGraph.Renaming
import PoseGraph.Proofs.ConnectionOrder
import PoseGraph.Proofs.VariablePlugs
import PoseGraph.Proofs.PrototypeFreshness
import PoseGraph.Proofs.GraphWiring
import PoseGraph.Proofs.EditorSoundness
import PoseGraph.Proofs.SheddingEdits
import PoseGraph.Proofs.PlacingEdits
import PoseGraph.Proofs.LinkingEdits
import PoseGraph.Proofs.NamingEdits
import PoseGraph.Proofs.LinkInvariant
import PoseGraph.Proofs.VariableChains
import PoseGraph.Proofs.CompiledGraphs
import PoseGraph.Proofs.ConnectionEnds
import PoseGraph.Proofs.EventKinds
import PoseGraph.Proofs.LinkDelivery
import PoseGraph.Proofs.LoweringFailures
import PoseGraph.Proofs.RejectedEdits
import PoseGraph.Proofs.NavigationRuns
import PoseGraph.Proofs.SupplyRuns
import PoseGraph.Proofs.RepeatedCompilation
import PoseGraph.Proofs.PropertyNames
import PoseGraph.Proofs.EntryRuns
import PoseGraph.Proofs.VariableCircles
import PoseGraph.Proofs.PrototypeTree
import PoseGraph.Proofs.SeveredNodes
import PoseGraph.Proofs.PropertyTypes
import PoseGraph.Proofs.RenamedPrototypes
import PoseGraph.Proofs.PrototypeBytes
import PoseGraph.Proofs.RecursionDepth
import PoseGraph.Proofs.DeadNodes
import PoseGraph.Proofs.Decoding
import PoseGraph.Proofs.PrototypeTerms
import PoseGraph.Proofs.ArrangedGraphs
import PoseGraph.Proofs.AssetTerms
import PoseGraph.Proofs.ConnectedNodes
import PoseGraph.Proofs.CleanRemoval
import PoseGraph.Proofs.LinkReversal
import PoseGraph.Proofs.RemovalOrder
import PoseGraph.Proofs.PropertyRetyping
import PoseGraph.Proofs.TriangleChoice
import PoseGraph.Proofs.StoredOrder
import PoseGraph.Proofs.RuntimeValues
import PoseGraph.Proofs.PromotedStates
import PoseGraph.Proofs.SafeNames
import PoseGraph.Proofs.FreshNames
import PoseGraph.Proofs.WaysBack
import PoseGraph.Proofs.WalkSteps
