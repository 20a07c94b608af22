import FlowAdmission.Proofs.Cost.Capacity
import FlowAdmission.Proofs.Routing.Ranked

/-!
# The ranked router is optimal and complete within its bound

Over token buckets every queue costs one hop, and a penalized one as much as 30000. The router goes
through the paths that the request may use by cost, so its answer costs no more than any other path
in time, its answer can be registered, and it has one whenever it may look at all paths
(`RankedRouter.route?_optimal`). Which queues are penalized has no part in what is in time then.

Only for the comparison of costs anything is asked of arithmetic: that sums of whole numbers are
exact up to 30000 for each queue of the network. Doubles are, on networks of up to 2^53 / 30000
queues. Rates, bursts and delays may be rounded in any way.
-/
namespace FlowAdmission
variable {K : Type} [Quantity K]

/-- Sum of the costs of the hops, in travel order. -/
def CostModel.pathCost? {C : Type} [CostModel C K] (costs : C) (net : Network K)
    (request : Request K) (path : Path) : Option K :=
  (path.mapM fun e => cost? costs net e request).map Weight.total

/-- A loop-free path of queues between the ends of a request, with room for it on every queue. -/
structure TokenBucket.Accessible (ledger : TokenBucket K) (net : Network K) (request : Request K)
    (path : Path) : Prop where
  simple : net.queueGraph.SimplePath request.source path request.destination
  room : ∀ e ∈ path, ledger.hasRoom net e request = true

/-- The hops together keep the deadline. -/
def Network.InTime (net : Network K) (request : Request K) (path : Path) : Prop :=
  ∃ delay, net.pathDelay? path = some delay ∧ delay ≤ request.deadline

namespace RankedRouter
open TokenBucket
variable {net : Network K} {request : Request K} {ledger : TokenBucket K}
  {penalized : Std.ExtTreeSet EdgeId} {path : Path} {e : EdgeId} {w : K}

/-- What is asked for over token buckets, with some of the queues penalized. -/
abbrev bucketQuery (net : Network K) (request : Request K) (ledger : TokenBucket K)
    (penalized : Std.ExtTreeSet EdgeId) : PathQuery K :=
  query net request (⟨ledger, penalized⟩ : Surcharged (TokenBucket K))

/-- What a queue costs, as a number. -/
def hopSize (penalized : Std.ExtTreeSet EdgeId) (e : EdgeId) : ℕ :=
  if penalized.contains e then 30000 else 1

/-- A queue that has room is a queue of the network. -/
theorem queue?_of_hasRoom (room : ledger.hasRoom net e request = true) :
    (net.queue? e).isSome := by
  have ⟨link, queue, found, _⟩ := hasRoom_iff.mp room
  simp [found]

/-- There are no more different queues with room than the network has queues. -/
theorem length_le_queues {p : Path} (distinct : p.Nodup)
    (room : ∀ e ∈ p, ledger.hasRoom net e request = true) : p.length ≤ net.queueOwner.size := by
  have subset : p ⊆ net.queueOwner.keys := by
    intro e mem
    have ⟨⟨link, queue⟩, found⟩ := Option.isSome_iff_exists.mp (queue?_of_hasRoom (room e mem))
    have ⟨l, owner, _⟩ := Network.queue?_eq_some.mp found
    rw [Network.linkOf?] at owner
    simp [Std.ExtTreeMap.mem_iff_isSome_getElem?, owner]
  have shorter := (List.subperm_of_subset distinct subset).length_le
  rwa [Std.ExtTreeMap.length_keys] at shorter

theorem weight_isSome :
    ((bucketQuery net request ledger penalized).weight e).isSome ↔
      ledger.hasRoom net e request = true := by
  simp only [query, CostModel.hasAccess, CostModel.cost?, hopCost?]
  split
  · rename_i room
    simpa [room] using queue?_of_hasRoom room
  · rename_i full
    simpa using full

theorem simple_query_iff (penalized : Std.ExtTreeSet EdgeId) :
    (bucketQuery net request ledger penalized).Simple path ↔
      ledger.Accessible net request path := by
  rw [PathQuery.simple_iff]
  simp only [weight_isSome]
  exact ⟨fun ⟨simple, room⟩ => ⟨simple, room⟩, fun ⟨simple, room⟩ => ⟨simple, room⟩⟩

theorem hopSize_le (penalized : Std.ExtTreeSet EdgeId) (e : EdgeId) :
    hopSize penalized e ≤ 30000 := by
  unfold hopSize
  split <;> omega

/-- A queue with room costs as much as its number says. -/
theorem weight_eq {bound : ℕ} (whole : WholeUpTo K bound) (enough : 30000 ≤ bound)
    (weight : (bucketQuery net request ledger penalized).weight e = some w) :
    w = (hopSize penalized e : K) := by
  simp only [query, CostModel.cost?, hopCost?] at weight
  split at weight
  · simp only [Option.map_map, Option.map_eq_some_iff] at weight
    have ⟨_, _, same⟩ := weight
    rw [← same]
    unfold hopSize
    by_cases dear : penalized.contains e
    · simp only [Function.comp, Surcharged.isPenalized, dear, if_true, Surcharged.factor,
        whole.one]
      rw [whole.mul (by omega) enough (by omega), Nat.one_mul]
    · simp only [Function.comp, Surcharged.isPenalized, dear, Bool.false_eq_true, if_false,
        whole.one]
  · cases weight

/-- Sums over queues that come to no node twice are whole numbers that are reckoned with exactly, if
that is so up to 30000 for each of as many queues as there can be. -/
theorem exactSums_query {most : ℕ} (whole : WholeUpTo K (30000 * most))
    (some_queue : ∀ e, ledger.hasRoom net e request = true → 0 < most)
    (short : ∀ p, net.queueGraph.LoopFree p → (∀ e ∈ p, ledger.hasRoom net e request = true) →
      p.length ≤ most) :
    (bucketQuery net request ledger penalized).ExactSums fun e => hopSize penalized e := by
  refine PathQuery.exactSums_whole whole (fun {e w} weight => ?_) fun {p} loopFree usable => ?_
  · have positive := some_queue e (weight_isSome.mp (Option.isSome_of_eq_some weight))
    have small := hopSize_le penalized e
    exact ⟨by omega, weight_eq whole (by omega) weight⟩
  · have short := short p loopFree fun e mem => weight_isSome.mp (usable e mem)
    have sum_le : (p.map (hopSize penalized)).sum ≤ p.length * 30000 :=
      PathQuery.sum_map_le fun e _ => hopSize_le penalized e
    omega

/-- No more queues are crossed than the network has. -/
theorem exactSums_queues (whole : WholeUpTo K (30000 * net.queueOwner.size)) :
    (bucketQuery net request ledger penalized).ExactSums fun e => hopSize penalized e := by
  refine exactSums_query whole (fun e room => ?_) fun p loopFree room =>
    length_le_queues loopFree.nodup room
  exact length_le_queues (List.nodup_singleton e) (List.forall_mem_singleton.mpr room)

/-- An accessible path has a cost, the one that the query gives it. -/
theorem exists_pathCost (penalized : Std.ExtTreeSet EdgeId)
    (accessible : ledger.Accessible net request path) :
    ∃ cost, CostModel.pathCost? (⟨ledger, penalized⟩ : Surcharged (TokenBucket K)) net request
        path = some cost ∧
      (bucketQuery net request ledger penalized).Costs path cost := by
  have simple := (simple_query_iff penalized).mpr accessible
  have ⟨cost, costs⟩ := PathQuery.costs_of_usable simple.usable
  refine ⟨cost, ?_, costs⟩
  obtain ⟨ws, weights, rfl⟩ := costs
  have same : path.mapM (fun e => CostModel.cost?
      (⟨ledger, penalized⟩ : Surcharged (TokenBucket K)) net e request) = some ws := by
    rw [← weights]
    refine mapM_congr fun e mem => ?_
    simp [query, CostModel.hasAccess, accessible.room e mem]
  rw [CostModel.pathCost?, same]
  rfl

theorem meetsDeadline_iff :
    meetsDeadline net request (⟨ledger, penalized⟩ : Surcharged (TokenBucket K)) path = true ↔
      net.InTime request path := by
  have delays : CostModel.pathDelay? (⟨ledger, penalized⟩ : Surcharged (TokenBucket K)) net
      request path = net.pathDelay? path := rfl
  unfold meetsDeadline Network.InTime
  rw [delays]
  cases net.pathDelay? path <;> simp

section answers
variable {router : RankedRouter}

/-- The answer has room on all of its queues and is in time. -/
theorem accessible_of_route? (routed : router.route? net request ⟨ledger, penalized⟩ = some path) :
    ledger.Accessible net request path ∧ net.InTime request path := by
  have ⟨simple, in_time⟩ := route?_eq_some routed
  exact ⟨(simple_query_iff penalized).mp simple, meetsDeadline_iff.mp in_time⟩

/-- With no more accessible paths than may be looked at, one in time is found. Which paths there are
does not depend on how their costs are compared. -/
theorem route?_isSome (penalized : Std.ExtTreeSet EdgeId) {paths : List Path}
    (few : paths.length ≤ router.candidates)
    (all : ∀ p, ledger.Accessible net request p → p ∈ paths)
    (accessible : ledger.Accessible net request path) (in_time : net.InTime request path) :
    (router.route? net request ⟨ledger, penalized⟩).isSome := by
  have ⟨items, candidates⟩ :=
    exists_candidates router (bucketQuery net request ledger penalized).ranks_alike
  exact candidates.isSome few (fun p simple => all p ((simple_query_iff penalized).mp simple))
    ((simple_query_iff penalized).mpr accessible) (meetsDeadline_iff.mpr in_time)

/-- No path in time is better than the answer, in any order that the costs agree with. -/
theorem route?_best {pays : Path → K → Prop} {le : Path → Path → Prop}
    (ranks : (bucketQuery net request ledger penalized).Ranks pays le)
    (routed : router.route? net request ⟨ledger, penalized⟩ = some path) {p : Path}
    (accessible : ledger.Accessible net request p) (in_time : net.InTime request p) :
    le path p := by
  have ⟨items, candidates⟩ := exists_candidates router ranks
  exact candidates.least ranks.respects.refl routed ((simple_query_iff penalized).mpr accessible)
    (meetsDeadline_iff.mpr in_time)

end answers

/-- What the router answers is a loop-free path of queues between the ends of the request, with
room on all of them and in time, and it can be registered. All accessible paths have a cost, and
where the costs of all queues together are reckoned with exactly, every accessible path that costs
less than the answer comes too late. If the router may look at as many paths as are accessible, it
has an answer whenever one of them is in time, and so whichever queues are penalized. -/
theorem route?_optimal (net : Network K) (ledger : TokenBucket K) (request : Request K)
    (router : RankedRouter) :
    (∀ penalized path, router.route? net request ⟨ledger, penalized⟩ = some path →
      ledger.Accessible net request path ∧ net.InTime request path ∧
      (∃ cost, CostModel.pathCost? (⟨ledger, penalized⟩ : Surcharged (TokenBucket K)) net request
          path = some cost ∧
        ∀ p, ledger.Accessible net request p →
          ∃ cost', CostModel.pathCost? (⟨ledger, penalized⟩ : Surcharged (TokenBucket K)) net
              request p = some cost' ∧
            (WholeUpTo K (30000 * net.queueOwner.size) → cost' < cost →
              ¬net.InTime request p)) ∧
      (CostModel.register? (⟨ledger, penalized⟩ : Surcharged (TokenBucket K)) net path
        request).isSome) ∧
    ∀ paths : List Path, paths.length ≤ router.candidates →
      (∀ p, ledger.Accessible net request p → p ∈ paths) →
      (∀ penalized, (∃ p, ledger.Accessible net request p ∧ net.InTime request p) →
        (router.route? net request ⟨ledger, penalized⟩).isSome) ∧
      ∀ penalized penalized', (router.route? net request ⟨ledger, penalized⟩).isSome =
        (router.route? net request ⟨ledger, penalized'⟩).isSome := by
  refine ⟨fun penalized path routed => ?_, fun paths few all =>
    ⟨fun penalized ⟨p, accessible, in_time⟩ => route?_isSome penalized few all accessible in_time,
      fun penalized penalized' => ?_⟩⟩
  · have ⟨accessible, in_time⟩ := accessible_of_route? routed
    have ⟨cost, priced, costs⟩ := exists_pathCost penalized accessible
    refine ⟨accessible, in_time, ⟨cost, priced, fun p accessible' => ?_⟩, ?_⟩
    · have ⟨cost', priced', costs'⟩ := exists_pathCost penalized accessible'
      refine ⟨cost', priced', fun whole cheaper in_time' => ?_⟩
      have exact : (bucketQuery net request ledger penalized).ExactSums
          fun e => hopSize penalized e := exactSums_queues whole
      have shorter := route?_best exact.ranks routed accessible' in_time'
      rw [exact.lt_iff accessible'.simple.loopFree accessible.simple.loopFree costs' costs]
        at cheaper
      exact not_le.mpr cheaper shorter
    · simpa [CostModel.register?] using accessible.room
  · have same : ∀ penalized penalized', (router.route? net request ⟨ledger, penalized⟩).isSome →
        (router.route? net request ⟨ledger, penalized'⟩).isSome := by
      intro penalized penalized' answered
      have ⟨path, routed⟩ := Option.isSome_iff_exists.mp answered
      have ⟨accessible, in_time⟩ := accessible_of_route? routed
      exact route?_isSome penalized' few all accessible in_time
    exact Bool.eq_iff_iff.mpr ⟨same penalized penalized', same penalized' penalized⟩

/-- A slow direct way and a fast one over a node between. -/
def diamond : Network Float :=
  BuildingCall.runAll (.empty 0) [.node "a", .node "s", .node "b", .link 0 2 100 0 [100],
    .link 0 1 1000000 0 [100], .link 1 2 1000000 0 [100]]

/-- The direct way would do, but its queue is penalized. Nothing in time costs less than the way
around. -/
theorem route?_optimal_diamond :
    let router : RankedRouter := {}
    let request : Request Float := ⟨0, 2, 10, 10, 2⟩
    let view : Surcharged (TokenBucket Float) := ⟨.empty, .ofList [4]⟩
    router.route? diamond request view = some [6, 8] ∧
      diamond.queueGraph.SimplePath 0 [6, 8] 2 ∧ diamond.InTime request [6, 8] ∧
      diamond.InTime request [4] ∧ (CostModel.register? view diamond [6, 8] request).isSome ∧
      ∃ cost, CostModel.pathCost? view diamond request [6, 8] = some cost ∧
        ∀ p, TokenBucket.Accessible .empty diamond request p → diamond.InTime request p →
          ∃ cost', CostModel.pathCost? view diamond request p = some cost' ∧ ¬cost' < cost := by
  intro router request view
  have routed : router.route? diamond request view = some [6, 8] := by decide +kernel
  have whole : WholeUpTo Float (30000 * diamond.queueOwner.size) :=
    Double.wholeUpTo (by decide +kernel)
  have ⟨sound, _⟩ := route?_optimal diamond .empty request router
  have ⟨accessible, in_time, ⟨cost, priced, best⟩, registers⟩ := sound _ _ routed
  refine ⟨routed, accessible.simple, in_time, ⟨1, by decide +kernel⟩, registers, cost, priced,
    fun p accessible' in_time' => ?_⟩
  have ⟨cost', priced', late⟩ := best p accessible'
  exact ⟨cost', priced', fun cheaper => late whole cheaper in_time'⟩

end RankedRouter
end FlowAdmission
