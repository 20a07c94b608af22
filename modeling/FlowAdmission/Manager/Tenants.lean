import FlowAdmission.Manager.Basic

/-!
# Tenants and virtual machines

Creation checks names and placement first. Deletion takes everything along that hangs on the
deleted: a machine its flows, a tenant its machines. Deleting what is not there does nothing.
-/
namespace FlowAdmission

/-- Where a new machine is to run. -/
inductive Placement where
  | on (host : HostId)
  /-- On any host; the draw picks one. -/
  | anywhere (draw : Nat)

namespace Placement
variable {K : Type}

/-- A named host that the network does not have. -/
def foreign? (net : Network K) : Placement → Option HostId
  | .on host => if net.hasHost host then none else some host
  | .anywhere _ => none

/-- The host that a machine is placed on, none in a network without hosts. -/
def host? (net : Network K) : Placement → Option HostId
  | .on host => some host
  | .anywhere draw => net.hosts[draw % net.hosts.length]?.map (·.id)

end Placement

namespace Transaction
variable {K : Type}

/-- Stores a tenant under a name that no other has. -/
def addTenant (name : String) (t : Transaction K) : Except Error TenantId × Transaction K :=
  let others := t.store.handles .tenant
  match t.anyRead (fun other : Tenant => other.name == name) others with
  | (true, t) => (.error (.duplicateName .tenant name), t)
  | (false, t) =>
    let (id, t) := t.insert (k := .tenant) { name }
    (.ok id, t)

/-- Stores a machine under a name that no other of its tenant has. -/
def addVm (net : Network K) (tenant : TenantId) (name : String) (placement : Placement)
    (t : Transaction K) : Except Error VmId × Transaction K :=
  match t.store.tenant? tenant with
  | none => (.error (.unknownTenant tenant), t)
  | some owner =>
    match (t.lock tenant).anyRead (fun other : VirtualMachine => other.name == name) owner.vms with
    | (true, t) => (.error (.duplicateName .vm name), t)
    | (false, t) =>
      match placement.host? net with
      | none => (.error (.noHosts name), t)
      | some host =>
        let (id, t) := t.insert (k := .vm) { name, tenant, host }
        (.ok id, t.update tenant (Tenant.addVm id))

def setConnection (vm : VmId) (connection : Option String) (t : Transaction K) :
    Except Error Unit × Transaction K :=
  if t.store.contains vm then
    (.ok (), t.update vm fun record : VirtualMachine => { record with connection })
  else (.error (.unknownVm vm), t)

/-- Takes a flow off both its machines and removes it with its request. -/
def removeFlow (t : Transaction K) (flow : FlowId) : Transaction K :=
  match t.store.flow? flow with
  | none => t
  | some record =>
    let t := (t.lock flow).update record.source (VirtualMachine.removeFlow flow)
    let t := t.update record.destination (VirtualMachine.removeFlow flow)
    let t := record.request.elim t t.detach
    t.remove flow

/-- Removes a machine with its flows, and takes it off its tenant. -/
def removeVm (t : Transaction K) (vm : VmId) : Transaction K :=
  match t.store.vm? vm with
  | none => t
  | some record =>
    let t := record.flows.foldl removeFlow (t.lock vm)
    let t := t.update record.tenant (Tenant.removeVm vm)
    t.remove vm

/-- The flows of the given machines, in order of creation. -/
def flowsAt (store : Store K) (vms : List VmId) : List FlowId :=
  let flows := vms.flatMap fun vm => (store.vm? vm).elim [] (·.flows)
  (Std.ExtTreeSet.ofList flows compare).toList

/-- Removes a tenant: every flow of its machines first, then the machines. -/
def removeTenant (t : Transaction K) (tenant : TenantId) : Transaction K :=
  match t.store.tenant? tenant with
  | none => t
  | some record =>
    let t := record.vms.foldl lock (t.lock tenant)
    let t := (flowsAt t.store record.vms).foldl removeFlow t
    let t := record.vms.foldl remove t
    t.remove tenant

end Transaction

namespace Manager
variable {R C K : Type} [CostModel C K]

def createTenant (m : Manager R C K) (name : String) : Except Error TenantId × Manager R C K :=
  if name = "" then (.error (.emptyName .tenant), m) else m.attempt (Transaction.addTenant name)

def createVm (m : Manager R C K) (tenant : TenantId) (name : String) (placement : Placement) :
    Except Error VmId × Manager R C K :=
  if name = "" then (.error (.emptyName .vm), m)
  else
    match placement.foreign? m.network with
    | some host => (.error (.foreignHost none host), m)
    | none => m.attempt (Transaction.addVm m.network tenant name placement)

def setConnection (m : Manager R C K) (vm : VmId) (connection : Option String) :
    Except Error Unit × Manager R C K :=
  m.attempt (Transaction.setConnection vm connection)

def deleteVm (m : Manager R C K) (vm : VmId) : Manager R C K :=
  m.keep (m.store.begin.removeVm vm)

def deleteTenant (m : Manager R C K) (tenant : TenantId) : Manager R C K :=
  m.keep (m.store.begin.removeTenant tenant)

end Manager
end FlowAdmission
