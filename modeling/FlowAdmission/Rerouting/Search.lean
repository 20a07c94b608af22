import FlowAdmission.Embedding
import FlowAdmission.Rerouting.Avoidance
import FlowAdmission.Rerouting.Candidates

/-!
# Making room for a blocked request

Candidates are moved one at a time until the blocked request fits. A flow's new path is registered
before its old one is given back, and a moved flow stays where it went even when the blocked
request still does not fit.
-/
namespace FlowAdmission.Rerouting

/-- What a search needs to know of its surroundings. -/
structure Setting (K : Type) where
  network : Network K
  index : PathIndex
  configuration : Configuration

structure Outcome where
  /-- The blocked request, embedded, if some move made room for it. -/
  request : Option RequestId
  record : Record
  deriving DecidableEq

variable {R C K : Type} [Quantity K] [CostModel C K] [Router R C K]

/-- Points a flow at the request that replaces its old one, and releases the old path. -/
def relink (flow : FlowId) (oldRequest newRequest : RequestId) (t : Transaction K) :
    Transaction K :=
  let t := (t.lock flow).detach oldRequest
  let t := t.update flow fun record : Flow K => { record with request := some newRequest }
  t.update newRequest fun booking : Booking K => { booking with flow := some flow }

/-- Moves a flow to another path, away from what `blocked` needs. Tells whether it moved; a flow
without a path does not. -/
def move (env : Setting K) (x : Embedder R C K) (flow : FlowId) (blocked : Request K) :
    Except Error Bool × Embedder R C K :=
  match routed? x.store flow with
  | none => (.ok false, x)
  | some (oldRequest, request, oldPath) =>
    match avoidedEdges env.network env.index env.configuration oldPath blocked with
    | .error e => (.error e, x)
    | .ok penalized =>
      match x.embed env.network penalized request (some oldRequest) with
      | (none, x) => (.ok false, x)
      | (some newRequest, x) =>
        (.ok true, x.commit env.network (relink flow oldRequest newRequest x.store.begin))

/-- Tries the candidates in order, each followed by a new attempt at the blocked request if it
could be moved. -/
def tryEach (env : Setting K) (blocked : Request K) :
    List FlowId → Record → Embedder R C K → Except Error Outcome × Embedder R C K
  | [], record, x => (.ok ⟨none, record⟩, x)
  | flow :: rest, record, x =>
    let record := { record with attempts := record.attempts ++ [flow] }
    match move env x flow blocked with
    | (.error e, x) => (.error e, x)
    | (.ok false, x) => tryEach env blocked rest record x
    | (.ok true, x) =>
      let record := { record with reconfigured := record.reconfigured ++ [flow] }
      match x.embed env.network ∅ blocked none with
      | (some id, x) => (.ok ⟨some id, { record with successes := [flow] }⟩, x)
      | (none, x) => tryEach env blocked rest record x

/-- The candidates for a blocked request, in the order in which they may be tried. -/
def tryOrder (env : Setting K) (store : Store K) (blocked : Request K) :
    Except Error (List FlowId) := do
  let c := env.configuration
  let candidates ← select env.network store env.index blocked c.selection
  let ranked ← rank env.network store env.index blocked candidates c.order
  return ranked.take (c.maxAttempts candidates.size)

/-- Moves flows until the blocked request fits or no candidate is left. -/
def makeRoom (env : Setting K) (x : Embedder R C K) (blocked : Request K) :
    Except Error Outcome × Embedder R C K :=
  match tryOrder env x.store blocked with
  | .error e => (.error e, x)
  | .ok flows => tryEach env blocked flows {} x

end FlowAdmission.Rerouting
