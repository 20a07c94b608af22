import FlowAdmission.Proofs.Cost.Capacity
import FlowAdmission.Proofs.Manager.Steps

/-!
# Paths that cross a queue more than once

Every queue of a path is asked for room before any of them is charged. Each crossing is charged
(`reservation_foldl_charge`), but room was asked for only one. So registering keeps the limits of
every queue that the path crosses at most once (`register_limits`), and a router that sends a
request twice over one queue can make it reserve more than it has (`overbooked_twice`).
-/
namespace FlowAdmission
variable {R K : Type} [Quantity K]

namespace TokenBucket
variable {net : Network K} {ledger : TokenBucket K} {path : Path} {request : Request K}

theorem register?_eq_none :
    CostModel.register? ledger net path request = none ↔
      ∃ e ∈ path, ledger.hasRoom net e request = false := by
  simp [CostModel.register?]

/-- In a built network, from a ledger that keeps all limits: a path that is registered charges
each queue as often as it crosses it, and the limits are kept on every queue that it crosses at
most once. A path that is refused has a queue without room, and an embedding whose router answers
that path comes to nothing and leaves the ledger. -/
theorem register_limits [Router R (TokenBucket K) K] (id : Nat) (calls : List (BuildingCall K))
    (ledger : TokenBucket K) (path : Path) (request : Request K)
    (limits : ∀ l link, (BuildingCall.runAll (.empty id) calls).link? l = some link →
      ∀ queue ∈ link.queues, ledger.Fits queue.edge link queue) :
    let net := BuildingCall.runAll (.empty id) calls
    match CostModel.register? ledger net path request with
    | some after => ∀ l link, net.link? l = some link → ∀ queue ∈ link.queues,
        after.reservation queue.edge =
            (Reservation.plus request)^[path.count queue.edge] (ledger.reservation queue.edge) ∧
          (path.count queue.edge ≤ 1 → after.Fits queue.edge link queue)
    | none => (∃ e ∈ path, ledger.hasRoom net e request = false) ∧
        ∀ (x : Embedder R (TokenBucket K) K) penalized replaces, x.costs = ledger →
          (Router.route x.router net request (⟨ledger, penalized⟩ : Surcharged _)).1 = some path →
          (x.embed net penalized request replaces).1 = none ∧
            (x.embed net penalized request replaces).2.costs = ledger := by
  intro net
  have wired : net.Wired := Network.wired_runAll id calls
  cases registered : CostModel.register? ledger net path request with
  | some after =>
    intro l link live queue mem
    have found := wired.queues live mem
    refine ⟨?_, fun once => (limits l link live queue mem).register found once registered⟩
    obtain ⟨_, rfl⟩ := register?_eq_some.mp registered
    exact reservation_foldl_charge ledger path request queue.edge
  | none =>
    refine ⟨register?_eq_none.mp registered, fun x penalized replaces costs answered => ?_⟩
    subst costs
    obtain ⟨router, refused⟩ | ⟨router, path', costs, routed, accepted, _⟩ :=
      x.embed_cases net penalized request replaces
    · rw [refused]
      exact ⟨rfl, rfl⟩
    · rw [routed] at answered
      cases answered
      rw [registered] at accepted
      cases accepted

/-- Two nodes and a link each way, whose two queues share its rate. -/
def bothWays : List (BuildingCall Rat) :=
  [.node "a", .node "b", .link 0 1 1000 0 [100, 50], .link 1 0 1000 0 [100, 50]]

/-- The queues take the request beside one that they carry already. -/
theorem register_limits_bothWays :
    let net : Network Rat := BuildingCall.runAll (.empty 0) bothWays
    let ledger := [3].foldl (charge ⟨0, 1, 100, 60, 1⟩) empty
    let request : Request Rat := ⟨0, 1, 400, 40, 1⟩
    (∃ link, net.link? 2 = some link ∧ link.queues.map (·.edge) = [3, 4]) ∧
      ∃ after, CostModel.register? ledger net [4, 3] request = some after ∧
        ∀ link, net.link? 2 = some link → ∀ queue ∈ link.queues,
          after.Fits queue.edge link queue := by
  intro net ledger request
  have wired : net.Wired := Network.wired_runAll 0 bothWays
  have carried : CostModel.register? empty net [3] (⟨0, 1, 100, 60, 1⟩ : Request Rat) =
      some ledger := register?_eq_some.mpr ⟨by decide +kernel, rfl⟩
  have within : ledger.Within net := (Within.nothing wired).register (by decide) carried
  have limits := register_limits (R := Scripted) 0 bothWays ledger [4, 3] request
    fun l link live queue mem => within queue.edge link queue (wired.queues live mem)
  have edges : ((net.link? 2).map fun link => link.queues.map (·.edge)) = some [3, 4] := by
    decide +kernel
  obtain ⟨after, registered⟩ : ∃ after, CostModel.register? ledger
      (BuildingCall.runAll (.empty 0) bothWays) [4, 3] request = some after :=
    ⟨_, register?_eq_some.mpr ⟨by decide +kernel, rfl⟩⟩
  simp only [registered] at limits
  exact ⟨by simpa using edges, after, registered, fun link live queue mem =>
    (limits 2 link live queue mem).2 (List.nodup_iff_count.mp (by decide) _)⟩

/-- The first queue may give away 500 bytes per second. It has room for a request of 400, and a
path that comes back and crosses it again makes it reserve 800. -/
theorem overbooked_twice :
    let net : Network Rat := BuildingCall.runAll (.empty 0) bothWays
    let request : Request Rat := ⟨0, 1, 400, 40, 1⟩
    (empty : TokenBucket Rat).Within net ∧
      ∃ after link queue, CostModel.register? empty net [3, 6, 3] request = some after ∧
        net.queue? 3 = some (link, queue) ∧ after.reservation 3 = ⟨800, 80, 2⟩ ∧
        ¬after.Fits 3 link queue := by
  intro net request
  have registered : CostModel.register? empty net [3, 6, 3] request =
      some ([3, 6, 3].foldl (charge request) empty) :=
    register?_eq_some.mpr ⟨by decide +kernel, rfl⟩
  have reserved : ([3, 6, 3].foldl (charge request) empty).reservation 3 = ⟨800, 80, 2⟩ := by
    decide +kernel
  have capacity : (net.queue? 3).map (fun item => item.2.capacity item.1) = some 500 := by
    decide +kernel
  obtain ⟨⟨link, queue⟩, found, share⟩ := Option.map_eq_some_iff.mp capacity
  refine ⟨Within.nothing (Network.wired_runAll 0 bothWays), _, link, queue, registered, found,
    reserved, fun fits => ?_⟩
  have rate : (800 : Rat) ≤ 500 := by
    have reserved_rate := fits.1
    rwa [reserved, ← Queue.capacity, share] at reserved_rate
  exact absurd rate (by decide)

end TokenBucket
end FlowAdmission
