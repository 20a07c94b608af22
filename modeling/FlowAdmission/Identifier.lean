import FlowAdmission.Graph.Basic

/-!
# Names of things

Hosts are numbered within their network. Tenants, virtual machines, flows and requests are named
by handles: the kind and a number that the store gives out once.
-/
namespace FlowAdmission

/-- The `index`-th host created in network number `network`. -/
structure HostId where
  network : Nat
  index : Nat
  deriving DecidableEq

inductive Kind where
  | tenant | vm | flow | request
  deriving DecidableEq

structure Handle (k : Kind) where
  index : Nat
  deriving DecidableEq

abbrev TenantId := Handle .tenant
abbrev VmId := Handle .vm
abbrev FlowId := Handle .flow
abbrev RequestId := Handle .request

namespace Handle
variable {k : Kind}

/-- Handles are ordered by number, which is the order of their creation. -/
instance : Ord (Handle k) := ⟨compareOn Handle.index⟩

instance : Std.TransOrd (Handle k) := inferInstanceAs (Std.TransCmp (compareOn Handle.index))

instance : Std.LawfulEqOrd (Handle k) where
  eq_of_compare {a b} h := by
    cases a; cases b
    exact congrArg Handle.mk (Nat.compare_eq_eq.mp h)

end Handle

/-- A handle of any kind. -/
structure AnyHandle where
  kind : Kind
  index : Nat
  deriving DecidableEq

def Handle.any {k : Kind} (h : Handle k) : AnyHandle := ⟨k, h.index⟩

end FlowAdmission
