import FlowAdmission.Cost.Surcharge

/-!
# Routers

A router answers a request with a path of queue edges, or with none. It may keep a state of its
own between calls and never registers anything.
-/
namespace FlowAdmission

class Router (R C : Type) (K : outParam Type) where
  route : R → Network K → Request K → Surcharged C → Option Path × R

/-- Counts the calls of another router. -/
structure Metered (R : Type) where
  router : R
  calls : Nat := 0

instance {R C K : Type} [Router R C K] : Router (Metered R) C K where
  route meter net request view :=
    let (answer, router) := Router.route meter.router net request view
    (answer, ⟨router, meter.calls + 1⟩)

/-- Answers its calls from a list, whatever is asked, and with no path at its end. -/
structure Scripted where
  answers : List (Option Path)

instance {C K : Type} [CostModel C K] : Router Scripted C K where
  route script _ _ _ := (script.answers.headD none, ⟨script.answers.tail⟩)

end FlowAdmission
