import FlowAdmission.Cost.TokenBucket
import FlowAdmission.Proofs.Graph.RankedPaths
import FlowAdmission.Proofs.Network.Growth
import FlowAdmission.Routing.Ranked

/-!
# What the ranked router answers

The router goes through the loop-free paths in their order, each once, and answers with the first
one in time among those that it may look at (`RankedRouter.exists_candidates`). If the costs agree
with an order, no path in time is better in it than the answer (`Candidates.least`), and one in time
is found if the router may look at all paths (`Candidates.isSome`).

Whatever costs are asked and however they are rounded, an answer is a loop-free path of queues
between the ends of the request, and its hop delays keep the deadline
(`RankedRouter.serves_of_route?`). Such a path goes on serving the request when the network grows
(`Network.Serves.extends_net`).
-/
namespace FlowAdmission

/-- The path of another graph that has the same edges and more. -/
theorem Graph.SimplePath.mono {g g' : Graph} {a b : NodeId} {p : Path}
    (kept : ∀ {e edge}, g.edge? e = some edge → g'.edge? e = some edge)
    (simple : g.SimplePath a p b) : g'.SimplePath a p b := by
  have leads : ∀ {a : NodeId} {p : Path}, g.Leads a p b →
      g'.Leads a p b ∧ g'.stops p = g.stops p := by
    intro a p leads
    induction p generalizing a with
    | nil => exact ⟨leads, rfl⟩
    | cons e rest ih =>
      obtain ⟨t, edge, leads⟩ := leads
      obtain ⟨leads', stops⟩ := ih leads
      refine ⟨⟨t, kept edge, leads'⟩, ?_⟩
      rw [Graph.stops_cons edge, Graph.stops_cons (kept edge), stops]
  obtain ⟨leads', stops⟩ := leads simple.leads
  exact ⟨simple.nonempty, leads', by rw [stops]; exact simple.distinct⟩

variable {K : Type} [Quantity K]

namespace Network
variable {net net' : Network K} {request : Request K} {path : Path}

/-- The sum of the delays of the hops, none if some edge is no queue. -/
def pathDelay? (net : Network K) (path : Path) : Option K :=
  (path.mapM (TokenBucket.queueDelay? net)).map Weight.total

/-- The path is a loop-free path of queues between the ends of the request, in time for it. -/
structure Serves (net : Network K) (path : Path) (request : Request K) : Prop where
  simple : net.queueGraph.SimplePath request.source path request.destination
  in_time : ∃ delay, net.pathDelay? path = some delay ∧ delay ≤ request.deadline

/-- Every hop of a path that has a delay is a queue. -/
theorem queue?_of_pathDelay? {delay : K} (timed : net.pathDelay? path = some delay) :
    ∀ e ∈ path, (net.queue? e).isSome := by
  obtain ⟨delays, each, _⟩ := Option.map_eq_some_iff.mp timed
  intro e mem
  obtain ⟨delay, hop⟩ := Option.isSome_iff_exists.mp (isSome_of_mapM each e mem)
  obtain ⟨item, found, _⟩ := Option.map_eq_some_iff.mp hop
  rw [found]
  rfl

/-- Where all hops were queues before, a network that grows keeps their delays. -/
theorem Extends.pathDelay? (extends_net : net.Extends net') {delay : K}
    (timed : net.pathDelay? path = some delay) : net'.pathDelay? path = some delay := by
  have hops : path.mapM (TokenBucket.queueDelay? net') =
      path.mapM (TokenBucket.queueDelay? net) := by
    refine mapM_congr fun e mem => ?_
    obtain ⟨⟨link, queue⟩, found⟩ :=
      Option.isSome_iff_exists.mp (queue?_of_pathDelay? timed e mem)
    rw [TokenBucket.queueDelay?, TokenBucket.queueDelay?, found, extends_net.queues found]
  rw [Network.pathDelay?, hops]
  exact timed

namespace Serves

theorem extends_net (serves : net.Serves path request) (extends_net : net.Extends net') :
    net'.Serves path request := by
  obtain ⟨delay, timed, in_time⟩ := serves.in_time
  exact ⟨serves.simple.mono extends_net.edges, delay, extends_net.pathDelay? timed, in_time⟩

theorem queue?_isSome (serves : net.Serves path request) : ∀ e ∈ path, (net.queue? e).isSome := by
  obtain ⟨delay, timed, _⟩ := serves.in_time
  exact queue?_of_pathDelay? timed

end Serves
end Network

namespace RankedRouter

section answers
variable {C : Type} [CostModel C K] {router : RankedRouter} {net : Network K}
  {request : Request K} {view : Surcharged C} {path : Path} {items : List Path}
  {pays : Path → K → Prop} {le : Path → Path → Prop}

/-- The loop-free paths over edges that may be used, each once and in an order, as the enumeration
yields them. The router answers with the first one in time among those that it may look at. -/
structure Candidates (router : RankedRouter) (net : Network K) (request : Request K)
    (view : Surcharged C) (le : Path → Path → Prop) (items : List Path) : Prop where
  distinct : items.Nodup
  mem_iff : ∀ p, p ∈ items ↔ (query net request view).Simple p
  sorted : items.Pairwise le
  yielded : ∀ n, ((query net request view).answers .fresh n).map (·.2) = items[n]?
  answer : router.route? net request view =
    (items.take router.candidates).find? (meetsDeadline net request view)

/-- The enumeration yields the paths in their order, and the router goes along with it. -/
theorem exists_candidates (router : RankedRouter)
    (ranks : (query net request view).Ranks pays le) :
    ∃ items, Candidates router net request view le items := by
  obtain ⟨items, answers, distinct, mem_iff, -, sorted⟩ := PathQuery.exists_answers ranks
  refine ⟨items.map (·.2), distinct, mem_iff, List.pairwise_map.mpr sorted, fun n => ?_, ?_⟩
  · rw [answers n, List.getElem?_map]
  · rw [route?, PathQuery.explore_eq_foldUntil answers, ← List.map_take, List.find?_map]
    exact foldUntil_find? _ _ _

namespace Candidates

/-- No path in time that comes after the answer is better, and none comes before it. -/
theorem least (candidates : Candidates router net request view le items) (refl : ∀ p, le p p)
    (routed : router.route? net request view = some path) {p : Path}
    (simple : (query net request view).Simple p)
    (in_time : meetsDeadline net request view p = true) : le path p := by
  have found := candidates.answer.symm.trans routed
  obtain ⟨_, before, after, split, late⟩ := List.find?_eq_some_iff_append.mp found
  have listed : items = before ++ path :: (after ++ items.drop router.candidates) := by
    rw [← List.cons_append, ← List.append_assoc, ← split, List.take_append_drop]
  have mem := (candidates.mem_iff p).mpr simple
  have sorted := candidates.sorted
  rw [listed] at mem sorted
  rcases List.mem_append.mp mem with earlier | rest
  · have missed := late p earlier
    rw [in_time] at missed
    cases missed
  · rcases List.mem_cons.mp rest with rfl | later
    · exact refl p
    · exact (List.pairwise_cons.mp (List.pairwise_append.mp sorted).2.1).1 p later

/-- With no more paths than may be looked at, one in time is found. -/
theorem isSome (candidates : Candidates router net request view le items) {paths : List Path}
    (few : paths.length ≤ router.candidates)
    (all : ∀ p, (query net request view).Simple p → p ∈ paths)
    (simple : (query net request view).Simple path)
    (in_time : meetsDeadline net request view path = true) :
    (router.route? net request view).isSome := by
  have subset : items ⊆ paths := fun p mem => all p ((candidates.mem_iff p).mp mem)
  have shorter := (List.subperm_of_subset candidates.distinct subset).length_le
  rw [candidates.answer, List.take_of_length_le (by omega), List.find?_isSome]
  exact ⟨path, (candidates.mem_iff path).mpr simple, in_time⟩

end Candidates

/-- The answer is a loop-free path over edges that may be used, and the deadline has been
checked. -/
theorem route?_eq_some (routed : router.route? net request view = some path) :
    (query net request view).Simple path ∧ meetsDeadline net request view path = true := by
  obtain ⟨items, candidates⟩ := exists_candidates router (query net request view).ranks_alike
  have found := candidates.answer.symm.trans routed
  have listed := List.mem_of_mem_take (List.mem_of_find?_eq_some found)
  exact ⟨(candidates.mem_iff path).mp listed, List.find?_some found⟩

end answers

/-- With token buckets the deadline is checked against the delays of the queues. -/
theorem serves_of_route? {router : RankedRouter} {net : Network K} {request : Request K}
    {view : Surcharged (TokenBucket K)} {path : Path}
    (routed : router.route? net request view = some path) : net.Serves path request := by
  obtain ⟨simple, in_time⟩ := route?_eq_some routed
  refine ⟨(PathQuery.simple_iff.mp simple).1, ?_⟩
  unfold meetsDeadline at in_time
  split at in_time
  · cases in_time
  · rename_i delay timed
    exact ⟨delay, timed, of_decide_eq_true in_time⟩

end RankedRouter
end FlowAdmission
