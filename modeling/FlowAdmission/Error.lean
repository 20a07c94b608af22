import FlowAdmission.Rerouting.Record
import FlowAdmission.Text.Quoted

/-!
# Refusals

Every refusal is named by its cause and carries what the message shows.
-/
namespace FlowAdmission

/-- What bears a name. -/
inductive Named where
  | tenant | vm | flow
  deriving DecidableEq

/-- The end of a flow that a refusal is about. -/
inductive Role where
  | source | destination
  deriving DecidableEq

inductive Error where
  | emptyName (what : Named)
  | duplicateName (what : Named) (name : String)
  | unknownTenant (id : TenantId)
  | unknownVm (id : VmId)
  /-- The virtual machines of a flow have different tenants. -/
  | differentTenants (source destination : String)
  | foreignHost (role : Option Role) (host : HostId)
  /-- A virtual machine runs on a host that the network does not have. -/
  | foreignVm (role : Role) (name : String)
  | noHosts (vm : String)
  | severalInterfaces (role : Role) (host : String) (interfaces : Nat)
  | duplicateMatching (vm : String)
  /-- A flow without a positive rate, burst or latency. -/
  | emptyDemand (flow : String)
  /-- No path fits. The record is there when rerouting was tried. -/
  | infeasible (flow : String) (record : Option Rerouting.Record)
  | unindexed (source destination : NodeId) (level : Nat)
  | linkToUnknownNode (source destination : NodeId)
  | linkLoop (source destination : NodeId)
  | linkParameters (source destination : NodeId)
  | percentAboveAll (percent : Nat)
  deriving DecidableEq

def Named.text : Named → String
  | .tenant => "tenant"
  | .vm => "VM"
  | .flow => "flow"

def Role.text : Role → String
  | .source => "source"
  | .destination => "destination"

def HostId.text (h : HostId) : String :=
  s!"HostId \x7b network: NetworkId({h.network}), index: {h.index} \x7d"

namespace Error
open Text (quoted)

private def invalid (reason : String) : String := s!"invalid argument: {reason}"

private def foreign (what : String) : String := s!"{what} is not in the same network"

private def link (source destination : NodeId) (fault : String) : String :=
  invalid s!"link {source} -> {destination} {fault}"

def message : Error → String
  | emptyName what => invalid s!"{what.text} name must not be empty"
  | duplicateName what name => s!"{what.text} name {quoted name} already exists"
  | unknownTenant id => invalid s!"unknown tenant Tenant#{id.index}"
  | unknownVm id => invalid s!"unknown VM VirtualMachine#{id.index}"
  | differentTenants source destination =>
    s!"VMs {quoted source} and {quoted destination} do not belong to the same tenant"
  | foreignHost none host => foreign s!"host {host.text}"
  | foreignHost (some role) host => foreign s!"{role.text} host {host.text}"
  | foreignVm role name => foreign s!"{role.text} VM {quoted name}"
  | noHosts vm => s!"no hosts in the network to place VM {quoted vm}"
  | severalInterfaces role host interfaces =>
    s!"{role.text} host {quoted host} has {interfaces} interfaces, " ++
      "only single-interface hosts are supported"
  | duplicateMatching vm => s!"this matching already exists for source VM {quoted vm}"
  | emptyDemand flow => invalid s!"flow {quoted flow} needs a positive rate, burst and latency"
  | infeasible flow _ => s!"unable to embed flow {quoted flow}"
  | unindexed source destination level =>
    s!"no shortest path tier {level} from node {source} to node {destination}"
  | linkToUnknownNode source destination => link source destination "references an unknown node"
  | linkLoop source destination => link source destination "is a loop"
  | linkParameters source destination =>
    link source destination "needs a positive rate and at least one positive buffer"
  | percentAboveAll percent => invalid s!"reroute limit of {percent}% is above 100%"

end Error
end FlowAdmission
