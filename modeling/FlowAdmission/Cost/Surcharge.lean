import FlowAdmission.Cost.Model

/-!
# Surcharges

One routing call sees a cost model with a surcharge on some edges. They cost more and stay usable;
registrations pass through to the model.
-/
namespace FlowAdmission

structure Surcharged (C : Type) where
  model : C
  /-- The edges that cost more. -/
  penalized : Std.ExtTreeSet EdgeId

namespace Surcharged
variable {C K : Type}

/-- Factor on the cost of a penalized edge, so large that any path around such edges is cheaper. -/
def factor [Quantity K] : K := ((30000 : Nat) : K)

/-- The model as it is. -/
def base (model : C) : Surcharged C := ⟨model, ∅⟩

def isPenalized (view : Surcharged C) (e : EdgeId) : Bool := view.penalized.contains e

instance [Quantity K] [CostModel C K] : CostModel (Surcharged C) K where
  hasAccess view net e request := CostModel.hasAccess view.model net e request
  cost? view net e request :=
    (CostModel.cost? view.model net e request).map fun cost =>
      if view.isPenalized e then cost * factor else cost
  delay? view net e request := CostModel.delay? view.model net e request
  register? view net path request :=
    (CostModel.register? view.model net path request).map fun model => { view with model }
  deregister? view net path request :=
    (CostModel.deregister? view.model net path request).map fun model => { view with model }

end Surcharged
end FlowAdmission
