import FlowAdmission.Manager.Flows

/-!
# Runs of a manager

The calls that change a manager, as data. A run answers one call after the other; whatever a call
answers, the next one finds the state it left.
-/
namespace FlowAdmission

inductive Operation (K : Type) where
  | createTenant (name : String)
  | createVm (tenant : TenantId) (name : String) (placement : Placement)
  | setConnection (vm : VmId) (connection : Option String)
  | createFlow (demand : FlowDemand K)
  | deleteFlow (flow : FlowId)
  | deleteVm (vm : VmId)
  | deleteTenant (tenant : TenantId)
  | extendTopology (calls : List (BuildingCall K))

/-- What a call that is not refused answers. -/
inductive Reply where
  | tenant (id : TenantId)
  | vm (id : VmId)
  | flow (id : FlowId)
  | done
  deriving DecidableEq

namespace Operation
variable {R C K : Type} [Quantity K] [CostModel C K] [Router R C K]

def run (m : Manager R C K) : Operation K → Except Error Reply × Manager R C K
  | createTenant name =>
    let (answer, m) := m.createTenant name
    (answer.map .tenant, m)
  | createVm tenant name placement =>
    let (answer, m) := m.createVm tenant name placement
    (answer.map .vm, m)
  | setConnection vm connection =>
    let (answer, m) := m.setConnection vm connection
    (answer.map fun _ => .done, m)
  | createFlow demand =>
    let (answer, m) := m.createFlow demand
    (answer.map .flow, m)
  | deleteFlow flow => (.ok .done, m.deleteFlow flow)
  | deleteVm vm => (.ok .done, m.deleteVm vm)
  | deleteTenant tenant => (.ok .done, m.deleteTenant tenant)
  | extendTopology calls =>
    let (_, m) := m.updateTopology fun net => ((), BuildingCall.runAll net calls)
    (.ok .done, m)

/-- The manager after a list of calls. -/
def runAll (m : Manager R C K) (operations : List (Operation K)) : Manager R C K :=
  operations.foldl (fun m operation => (operation.run m).2) m

end Operation
end FlowAdmission
