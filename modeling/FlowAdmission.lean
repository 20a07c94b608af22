import FlowAdmission.Cost.Priced
import FlowAdmission.Manager.Operation
import FlowAdmission.Proofs.Cost.Outstanding
import FlowAdmission.Proofs.Graph.BuildOrder
import FlowAdmission.Proofs.Graph.Tiers
import FlowAdmission.Proofs.Manager.Avoidance
import FlowAdmission.Proofs.Manager.Embedding
import FlowAdmission.Proofs.Manager.Locks
import FlowAdmission.Proofs.Manager.Projection
import FlowAdmission.Proofs.Manager.Ranking
import FlowAdmission.Proofs.Manager.Restoring
import FlowAdmission.Proofs.Network.Consistency
import FlowAdmission.Proofs.Routing.LastResort
import FlowAdmission.Proofs.Store.Crossings
import FlowAdmission.Proofs.Store.Releases
import FlowAdmission.Proofs.Traffic.Texts
