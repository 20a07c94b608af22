import FlowAdmission.Graph.RankedPaths
import FlowAdmission.Routing.Router

/-!
# Routing by ranked paths

The accessible paths are looked at in order of cost. The first one whose delay keeps the deadline
is the answer; after a fixed number of paths the router gives up.
-/
namespace FlowAdmission

structure RankedRouter where
  /-- How many paths are looked at. -/
  candidates : Nat := 32

namespace RankedRouter
variable {C K : Type} [Quantity K] [CostModel C K]

/-- The paths of queues that the request may use, weighed by their cost. -/
def query (net : Network K) (request : Request K) (view : Surcharged C) : PathQuery K where
  graph := net.queueGraph
  weight e :=
    if CostModel.hasAccess view net e request then CostModel.cost? view net e request else none
  source := request.source
  target := request.destination

def meetsDeadline (net : Network K) (request : Request K) (view : Surcharged C) (path : Path) :
    Bool :=
  match CostModel.pathDelay? view net request path with
  | none => false
  | some delay => delay ≤ request.deadline

def route? (router : RankedRouter) (net : Network K) (request : Request K) (view : Surcharged C) :
    Option Path :=
  (query net request view).explore
    (fun _ item =>
      if meetsDeadline net request view item.2 then .done (some item.2) else .yield none)
    router.candidates none .fresh

instance : Router RankedRouter C K where
  route router net request view := (router.route? net request view, router)

end RankedRouter
end FlowAdmission
