import FlowAdmission.Cost.Model

/-!
# Cost models with prices of their own

The edges on a price list cost what the list says; everything else is left to the inner model.
-/
namespace FlowAdmission

structure Priced (C K : Type) where
  model : C
  prices : Std.ExtTreeMap EdgeId K

instance {C K : Type} [CostModel C K] : CostModel (Priced C K) K where
  hasAccess costs net e request := CostModel.hasAccess costs.model net e request
  cost? costs net e request :=
    costs.prices[e]?.orElse fun _ => CostModel.cost? costs.model net e request
  delay? costs net e request := CostModel.delay? costs.model net e request
  register? costs net path request :=
    (CostModel.register? costs.model net path request).map fun model => { costs with model }
  deregister? costs net path request :=
    (CostModel.deregister? costs.model net path request).map fun model => { costs with model }

end FlowAdmission
