import FlowAdmission.Routing.Router
import FlowAdmission.Store.Transaction

/-!
# Embedding a request

A request is embedded when a path was found for it, registered with the cost model and attached in
the store. When routing or registration fails nothing stays but the request's number.
-/
namespace FlowAdmission

/-- What embedding works on. -/
structure Embedder (R C K : Type) where
  store : Store K
  router : R
  costs : C
  /-- Released paths that the cost model did not take back, oldest first. -/
  refused : List (Path × Request K) := []

namespace Embedder
variable {R C K : Type} [Quantity K] [CostModel C K] [Router R C K]

/-- Ends a transaction for good and gives back what it released. -/
def commit (x : Embedder R C K) (net : Network K) (t : Transaction K) : Embedder R C K :=
  let (store, released) := t.commit
  { x with
    store
    costs := CostModel.giveBack x.costs net released
    refused := x.refused ++ CostModel.passedOver x.costs net released }

/-- Routes a request with the given edges penalized, and keeps it if its path could be
registered. -/
def embed (x : Embedder R C K) (net : Network K) (penalized : Std.ExtTreeSet EdgeId)
    (request : Request K) (replaces : Option RequestId) :
    Option RequestId × Embedder R C K :=
  let booking : Booking K := { request, replaces }
  let (id, t) := x.store.begin.insert (k := .request) booking
  let view : Surcharged C := ⟨x.costs, penalized⟩
  let (answer, router) := Router.route x.router net request view
  let refused := { x with store := t.rollback, router }
  match answer with
  | none => (none, refused)
  | some path =>
    match CostModel.register? view net path request with
    | none => (none, refused)
    | some view =>
      (some id, Embedder.commit { x with router, costs := view.model } net (t.attach id path))

end Embedder
end FlowAdmission
