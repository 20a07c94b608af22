import FlowAdmission.Request
import FlowAdmission.Rerouting.Record
import FlowAdmission.Traffic.Contract
import FlowAdmission.Traffic.Matching

/-!
# Tenants, virtual machines and flows

A tenant lists its machines and a machine lists the flows that start or end at it, each once and
in order of arrival.
-/
namespace FlowAdmission

/-- Adds `a` at the end unless it is there. -/
def enlist {α : Type} [DecidableEq α] (a : α) (xs : List α) : List α :=
  if a ∈ xs then xs else xs ++ [a]

/-- Takes `a` off the list wherever it stands. -/
def delist {α : Type} [DecidableEq α] (a : α) (xs : List α) : List α := xs.filter (· ≠ a)

structure Tenant where
  name : String
  vms : List VmId := []
  deriving DecidableEq

structure VirtualMachine where
  name : String
  tenant : TenantId
  host : HostId
  flows : List FlowId := []
  /-- How the machine is reached for management; its form is not looked at. -/
  connection : Option String := none
  deriving DecidableEq

structure Flow (K : Type) where
  name : String
  source : VmId
  destination : VmId
  matching : Matching
  contract : Contract
  /-- Milliseconds. -/
  latency : K
  /-- None for a flow that does not leave its host. -/
  request : Option RequestId := none
  /-- There for every routed flow created while rerouting was configured. -/
  rerouting : Option Rerouting.Record := none
  deriving DecidableEq

namespace Tenant

def addVm (vm : VmId) (t : Tenant) : Tenant := { t with vms := enlist vm t.vms }

def removeVm (vm : VmId) (t : Tenant) : Tenant := { t with vms := delist vm t.vms }

end Tenant

namespace VirtualMachine

def addFlow (flow : FlowId) (vm : VirtualMachine) : VirtualMachine :=
  { vm with flows := enlist flow vm.flows }

def removeFlow (flow : FlowId) (vm : VirtualMachine) : VirtualMachine :=
  { vm with flows := delist flow vm.flows }

end VirtualMachine
end FlowAdmission
