import FlowAdmission.Network.Basic
import FlowAdmission.Request

/-!
# Cost models

A cost model says which queues a request may use, what they cost, how long they hold a packet,
and it keeps the reservations of registered paths. Registering and deregistering answer with the
new model, or refuse; a refusal leaves nothing behind because it returns no model.
-/
namespace FlowAdmission

class CostModel (C : Type) (K : outParam Type) where
  hasAccess : C → Network K → EdgeId → Request K → Bool
  /-- None where no finite price is asked. -/
  cost? : C → Network K → EdgeId → Request K → Option K
  /-- The longest a packet of the request may stay; none where there is no bound. -/
  delay? : C → Network K → EdgeId → Request K → Option K
  /-- Reserves the path for the request. -/
  register? : C → Network K → Path → Request K → Option C
  /-- Gives the reservation of the path back. -/
  deregister? : C → Network K → Path → Request K → Option C

namespace CostModel
variable {C K : Type} [CostModel C K]

/-- Sum of the delays of the hops, in travel order. -/
def pathDelay? [Quantity K] (costs : C) (net : Network K) (request : Request K) (path : Path) :
    Option K :=
  (path.mapM fun e => delay? costs net e request).map Weight.total

/-- Gives back every path of the list; one that is not registered is passed over. -/
def giveBack (costs : C) (net : Network K) (released : List (Path × Request K)) : C :=
  released.foldl (fun costs item => (deregister? costs net item.1 item.2).getD costs) costs

/-- The paths of the list that are passed over when it is given back. -/
def passedOver (costs : C) (net : Network K) :
    List (Path × Request K) → List (Path × Request K)
  | [] => []
  | item :: rest =>
    match deregister? costs net item.1 item.2 with
    | none => item :: passedOver costs net rest
    | some costs => passedOver costs net rest

end CostModel
end FlowAdmission
