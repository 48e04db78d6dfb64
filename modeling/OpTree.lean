import OpTree.Main
import OpTree.Proofs.Restoration
import OpTree.Proofs.Visibility
import OpTree.Proofs.TreeIsomorphism
import OpTree.Proofs.DeadCode
import OpTree.Proofs.Congruence
import OpTree.Proofs.ReturnModes
import OpTree.Proofs.CallDepth
import OpTree.Proofs.CallLimit
import OpTree.Proofs.FileRoundTrip
import OpTree.Proofs.Histories
import OpTree.Proofs.Integrity
import OpTree.Proofs.FreshIds
import OpTree.Proofs.Reopening
import OpTree.Proofs.Lineage
import OpTree.Proofs.Statements
import OpTree.Proofs.Placement
import OpTree.Proofs.Refusals
import OpTree.Proofs.Sessions
import OpTree.Proofs.Outlines
import OpTree.Proofs.Scripts
import OpTree.Proofs.Entering
import OpTree.Proofs.Deletion
import OpTree.Proofs.Traversal
import OpTree.Proofs.Renderings
import OpTree.Proofs.Legibility
import OpTree.Proofs.Termination
import OpTree.Proofs.ParameterMaps
import OpTree.Proofs.WhileLoops
import OpTree.Proofs.BlockExtents
import OpTree.Proofs.Activations
import OpTree.Proofs.ScopeHistories
import OpTree.Proofs.ScopeChains
import OpTree.Proofs.Releases
import OpTree.Proofs.ForLoops
import OpTree.Proofs.Arguments
import OpTree.Proofs.Coercions
import OpTree.Proofs.Appends
import OpTree.Proofs.SetLines
import OpTree.Proofs.Magnitudes
import OpTree.Proofs.Accounts
