import FlowAdmission.Cost.TokenBucket
import FlowAdmission.Network.Building
import FlowAdmission.Rerouting.Search
import FlowAdmission.Routing.Ranked

/-!
# The manager

A manager runs tenants, virtual machines and flows on one network. Each of its operations works
inside a transaction of the store: it is completed or leaves nothing behind. With a rerouting
configuration the manager keeps a path index as deep as the configuration needs.
-/
namespace FlowAdmission

structure Manager (R C K : Type) extends Embedder R C K where
  network : Network K
  configuration : Option Rerouting.Configuration
  index : PathIndex

namespace Manager
variable {R C K : Type}

/-- The path index that a configuration needs; without one no pair is indexed. -/
def indexFor (network : Network K) : Option Rerouting.Configuration → PathIndex
  | none => .empty
  | some c => .build network.linkGraph c.indexDepth

def start (network : Network K) (router : R) (costs : C)
    (configuration : Option Rerouting.Configuration) : Manager R C K where
  store := .empty
  router
  costs
  network
  configuration
  index := indexFor network configuration

/-- Changes the network; the path index follows. -/
def updateTopology {α : Type} (m : Manager R C K) (change : Network K → α × Network K) :
    α × Manager R C K :=
  let (result, network) := change m.network
  let index := match m.configuration with
    | none => m.index
    | some c => .build network.linkGraph c.indexDepth
  (result, { m with network, index })

/-- What rerouting needs to know, when it is configured. -/
def setting? (m : Manager R C K) : Option (Rerouting.Setting K) :=
  m.configuration.map fun configuration => ⟨m.network, m.index, configuration⟩

/-- Looks at the store in a transaction of its own, which keeps nothing. -/
def inspect {α : Type} (m : Manager R C K) (body : Transaction K → α × Transaction K) :
    α × Manager R C K :=
  let (result, t) := body m.store.begin
  (result, { m with store := t.rollback })

variable [CostModel C K]

/-- Ends a transaction for good. -/
def keep (m : Manager R C K) (t : Transaction K) : Manager R C K :=
  { m with toEmbedder := m.toEmbedder.commit m.network t }

/-- Changes the store in a transaction. -/
def perform {α : Type} (m : Manager R C K) (body : Transaction K → α × Transaction K) :
    α × Manager R C K :=
  let (result, t) := body m.store.begin
  (result, m.keep t)

/-- Changes the store in a transaction, which is undone if `body` refuses. -/
def attempt {α : Type} (m : Manager R C K)
    (body : Transaction K → Except Error α × Transaction K) : Except Error α × Manager R C K :=
  match body m.store.begin with
  | (.ok result, t) => (.ok result, m.keep t)
  | (.error e, t) => (.error e, { m with store := t.rollback })

/-- Looks a tenant up by its name. -/
def tenantNamed? (m : Manager R C K) (name : String) : Option TenantId :=
  (m.store.handles .tenant).find? fun id => (m.store.tenant? id).any (·.name == name)

end Manager
end FlowAdmission
