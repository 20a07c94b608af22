import FlowAdmission.Proofs.Manager.Attempts
import FlowAdmission.Proofs.Manager.Index

/-!
# Which flows are candidates

Candidates are found along an index: from the links of the looked-at paths to their queues, from
the queues to the requests that cross them, and from the requests to their flows. A direct search
goes through all routed flows and asks of each whether a hop of its path belongs to one of those
links (`Rerouting.Candidate`). In every state of a manager the two agree
(`Manager.select_of_reachable`), so a selection that looks at more finds more.

How far into the index one looks is told apart from what it is looked at for (`PathIndex.Extent`):
the regions that moved flows avoid are read off it in the same way.
-/
namespace FlowAdmission

namespace PathIndex
variable {index : PathIndex} {s t : NodeId} {tiers : List Tier} {p : Path}

/-- The paths of the first tiers are those of the tiers that can be asked for. -/
theorem mem_flatten_take_tiers (known : index.tiers? s t = some tiers) (levels : Nat) :
    p ∈ (tiers.take levels).flatten ↔
      ∃ level tier, level < levels ∧ index.tier s t level = .ok tier ∧ p ∈ tier := by
  simp only [tier_of_tiers? known, List.mem_flatten, List.mem_take_iff_getElem]
  constructor
  · rintro ⟨tier, ⟨level, inside, rfl⟩, mem⟩
    exact ⟨level, tiers[level], by omega, dif_pos (by omega), mem⟩
  · rintro ⟨level, tier, asked, answered, mem⟩
    split at answered
    · rename_i inside
      cases answered
      exact ⟨tiers[level], ⟨level, by omega, rfl⟩, mem⟩
    · cases answered

/-- The first path of all stands in front of the first tier. -/
theorem mem_take_flatten_take_tiers (known : index.tiers? s t = some tiers) :
    p ∈ ((tiers.take 1).flatten).take 1 ↔
      ∃ tier, index.tier s t 0 = .ok tier ∧ tier.head? = some p := by
  cases tiers with
  | nil => simp [tier_of_tiers? known]
  | cons first later =>
    have answered : index.tier s t 0 = .ok first := by simp [tier_of_tiers? known]
    cases first <;> simp [answered, eq_comm]

/-- How far the paths of a pair are looked at. -/
inductive Extent where
  | nothing
  | firstPath
  | firstTier
  | twoTiers
  deriving DecidableEq

namespace Extent
variable {extent narrow wide : Extent}

/-- The path lies between the two nodes, no further in the index than one looks. -/
def Covers (index : PathIndex) (s t : NodeId) (p : Path) : Extent → Prop
  | nothing => False
  | firstPath => ∃ tier, index.tier s t 0 = .ok tier ∧ tier.head? = some p
  | firstTier => ∃ tier, index.tier s t 0 = .ok tier ∧ p ∈ tier
  | twoTiers => ∃ level tier, level < 2 ∧ index.tier s t level = .ok tier ∧ p ∈ tier

/-- The paths as they are read off the index. -/
def paths (index : PathIndex) (s t : NodeId) : Extent → Except Error (List Path)
  | nothing => .ok []
  | firstPath => (index.firstPaths s t 1).map (·.take 1)
  | firstTier => index.firstPaths s t 1
  | twoTiers => index.firstPaths s t 2

def breadth : Extent → Nat
  | nothing => 0
  | firstPath => 1
  | firstTier => 2
  | twoTiers => 3

/-- The covered paths are found, unless an index is needed and the pair is not in it. -/
theorem paths_eq (extent : Extent)
    (indexed : extent ≠ nothing → ∃ tiers, index.tiers? s t = some tiers) :
    ∃ paths, extent.paths index s t = .ok paths ∧ ∀ p, p ∈ paths ↔ extent.Covers index s t p := by
  have firstPaths {tiers : List Tier} (known : index.tiers? s t = some tiers) (levels : Nat) :
      index.firstPaths s t levels = .ok (tiers.take levels).flatten := by
    simp only [PathIndex.firstPaths, known]
  cases extent with
  | nothing => exact ⟨[], rfl, fun p => by simp [Covers]⟩
  | firstPath =>
    obtain ⟨tiers, known⟩ := indexed (by decide)
    refine ⟨_, by rw [paths, firstPaths known]; rfl, fun p => ?_⟩
    exact mem_take_flatten_take_tiers known
  | firstTier =>
    obtain ⟨tiers, known⟩ := indexed (by decide)
    refine ⟨_, firstPaths known 1, fun p => ?_⟩
    simp [mem_flatten_take_tiers known, Covers]
  | twoTiers =>
    obtain ⟨tiers, known⟩ := indexed (by decide)
    exact ⟨_, firstPaths known 2, fun p => mem_flatten_take_tiers known 2⟩

/-- Who looks further sees more. -/
theorem Covers.mono (covered : narrow.Covers index s t p)
    (wider : narrow.breadth ≤ wide.breadth) : wide.Covers index s t p := by
  have of_first : Covers index s t p firstPath → Covers index s t p firstTier := by
    rintro ⟨tier, answered, first⟩
    exact ⟨tier, answered, List.mem_of_mem_head? first⟩
  have of_tier : Covers index s t p firstTier → Covers index s t p twoTiers := by
    rintro ⟨tier, answered, mem⟩
    exact ⟨0, tier, by decide, answered, mem⟩
  cases narrow with
  | nothing => exact covered.elim
  | firstPath =>
    cases wide with
    | nothing => exact absurd wider (by decide)
    | firstPath => exact covered
    | firstTier => exact of_first covered
    | twoTiers => exact of_tier (of_first covered)
  | firstTier =>
    cases wide with
    | nothing | firstPath => exact absurd wider (by decide)
    | firstTier => exact covered
    | twoTiers => exact of_tier covered
  | twoTiers =>
    cases wide with
    | nothing | firstPath | firstTier => exact absurd wider (by decide)
    | twoTiers => exact covered

/-- Only loop-free paths are indexed. -/
theorem Covers.simplePath {g : Graph} {depth : Nat}
    (covered : extent.Covers (build g depth) s t p) : g.SimplePath s p t := by
  have widest : extent.breadth ≤ twoTiers.breadth := by cases extent <;> decide
  obtain ⟨level, tier, _, found, mem⟩ := covered.mono widest
  obtain ⟨_, exact_tier⟩ := tier_build found
  exact ((exact_tier p).mp mem).1

end Extent
end PathIndex

namespace Rerouting
variable {K : Type}

/-- The link paths of the blocked request that a selection looks at. The widest looks at none, but
takes all flows. -/
def Selection.extent : Selection → PathIndex.Extent
  | .allFlows => .nothing
  | .oneShortestPath => .firstPath
  | .allShortestPaths => .firstTier
  | .allTwoShortestPaths => .twoTiers

/-- A path of queues runs over a link of the path of links. -/
def Touches (net : Network K) (path linkPath : Path) : Prop :=
  ∃ e ∈ path, ∃ l ∈ linkPath, net.linkOf? e = some l

/-- A live flow with a path, which all selections but the widest want to touch the paths they look
at. -/
def Candidate (net : Network K) (s : Store K) (index : PathIndex) (request : Request K)
    (selection : Selection) (flow : FlowId) : Prop :=
  ∃ path, flowPath? s flow = some path ∧
    (selection = .allFlows ∨
      ∃ p, selection.extent.Covers index request.source request.destination p ∧
        Touches net path p)

section store
variable {s : Store K} {flow : FlowId}

theorem mem_routedRequests {id : RequestId} :
    id ∈ s.routedRequests ↔ ∃ b, s.request? id = some b ∧ b.path.isSome := by
  rw [Store.routedRequests, List.mem_filter, Store.mem_handles, Option.any_eq_true]
  exact and_iff_right_of_imp fun ⟨b, live, _⟩ => Option.isSome_of_eq_some live

/-- The flows of all routed requests are the flows with a path. -/
theorem mem_flowsOf_routedRequests (linked : s.Linked) :
    flow ∈ flowsOf s s.routedRequests ↔ ∃ path, flowPath? s flow = some path := by
  rw [mem_flowsOf linked]
  simp only [flowPath?, Option.map_eq_some_iff]
  constructor
  · rintro ⟨id, request, path, routed, _⟩
    exact ⟨path, _, routed, rfl⟩
  · rintro ⟨path, ⟨id, request, _⟩, routed, rfl⟩
    obtain ⟨f, b, _, _, held, _, has_path⟩ := routed?_eq_some routed
    exact ⟨id, request, _, routed, mem_routedRequests.mpr ⟨b, held, by simp [has_path]⟩⟩

/-- The requests that are entered on the queues of a link are those whose flow's path touches it. -/
theorem mem_crossing {net : Network K} (linked : s.Linked) (layered : net.Layered)
    {paths : List Path} :
    flow ∈ crossing net s paths ↔
      ∃ path, flowPath? s flow = some path ∧ ∃ p ∈ paths, Touches net path p := by
  rw [crossing, mem_flowsOf linked]
  simp only [flowPath?, Option.map_eq_some_iff, List.mem_flatMap, List.mem_flatten,
    Store.mem_requestsOn]
  constructor
  · rintro ⟨id, request, path, routed, e, ⟨l, ⟨p, looked_at, on_path⟩, queue⟩, crosses⟩
    obtain ⟨f, b, _, _, held, _, has_path⟩ := routed?_eq_some routed
    obtain ⟨b', path', held', has_path', hop⟩ := (linked.mirrored _).mp crosses
    cases held.symm.trans held'
    cases has_path.symm.trans has_path'
    exact ⟨path, ⟨_, routed, rfl⟩, p, looked_at, e, hop, l, on_path, (layered.owners e l).mpr queue⟩
  · rintro ⟨path, ⟨⟨id, request, _⟩, routed, rfl⟩, p, looked_at, e, hop, l, on_path, owner⟩
    obtain ⟨f, b, _, _, held, _, has_path⟩ := routed?_eq_some routed
    exact ⟨id, request, _, routed, e, ⟨l, ⟨p, looked_at, on_path⟩, (layered.owners e l).mp owner⟩,
      (linked.mirrored _).mpr ⟨b, _, held, has_path, hop⟩⟩

/-- All selections but the widest return what crosses the paths they look at. -/
theorem select_eq {selection : Selection} (narrow : selection ≠ .allFlows) (net : Network K)
    (s : Store K) (index : PathIndex) (request : Request K) :
    select net s index request selection =
      (selection.extent.paths index request.source request.destination).map (crossing net s) := by
  cases selection with
  | allFlows => exact absurd rfl narrow
  | oneShortestPath =>
    simp only [select, Selection.extent, PathIndex.Extent.paths]
    cases index.firstPaths request.source request.destination 1 <;> rfl
  | allShortestPaths | allTwoShortestPaths => rfl

/-- For an indexed pair every selection finds its candidates. -/
theorem mem_select {net : Network K} (linked : s.Linked) (layered : net.Layered)
    {index : PathIndex} {request : Request K} {tiers : List Tier}
    (known : index.tiers? request.source request.destination = some tiers)
    (selection : Selection) :
    ∃ flows, select net s index request selection = .ok flows ∧
      ∀ flow, flow ∈ flows ↔ Candidate net s index request selection flow := by
  by_cases narrow : selection = .allFlows
  · subst narrow
    refine ⟨_, rfl, fun flow => ?_⟩
    simp only [mem_flowsOf_routedRequests linked, Candidate, true_or, and_true]
  · obtain ⟨paths, answered, covers⟩ := selection.extent.paths_eq fun _ => ⟨tiers, known⟩
    refine ⟨crossing net s paths, by rw [select_eq narrow, answered]; rfl, fun flow => ?_⟩
    simp only [mem_crossing linked layered, Candidate, covers, narrow, false_or]

/-- About a pair that is not indexed only the selection of all flows has an answer. -/
theorem select_unindexed {net : Network K} {index : PathIndex} {request : Request K}
    (unknown : index.tiers? request.source request.destination = none) (selection : Selection)
    (e : Error) :
    select net s index request selection = .error e ↔
      selection ≠ .allFlows ∧ e = .unindexed request.source request.destination 0 := by
  have refused := (PathIndex.queries_unindexed unknown).2.2
  cases selection with
  | allFlows => simp [select]
  | oneShortestPath | allShortestPaths | allTwoShortestPaths =>
    simp [select, refused, Except.map, eq_comm]

/-- A selection that looks at more paths has more candidates. -/
theorem Candidate.mono {net : Network K} {index : PathIndex} {request : Request K}
    {narrow wide : Selection} (candidate : Candidate net s index request narrow flow)
    (more : wide = .allFlows ∨
      narrow ≠ .allFlows ∧ narrow.extent.breadth ≤ wide.extent.breadth) :
    Candidate net s index request wide flow := by
  obtain ⟨path, routed, found⟩ := candidate
  refine ⟨path, routed, ?_⟩
  obtain rfl | ⟨apart, more⟩ := more
  · exact .inl rfl
  · obtain ⟨p, looked_at, touched⟩ := found.resolve_left apart
    exact .inr ⟨p, looked_at.mono more, touched⟩

end store

end Rerouting

namespace Manager
open Rerouting
variable {R C K : Type} [Quantity K] [CostModel C K] [Router R C K] {m : Manager R C K}

/-- In every state of a manager, with an index of at least two tiers: for a request between two
different nodes a selection returns the routed flows that it wants, and the four selections find
more and more. For any other request all selections but that of all flows are refused. -/
theorem select_of_reachable (reachable : m.Reachable) {depth : Nat} (deep : 2 ≤ depth)
    (request : Request K) :
    let index := PathIndex.build m.network.linkGraph depth
    let selected := select m.network m.store index request
    let apart := (m.network.node? request.source).isSome ∧
      (m.network.node? request.destination).isSome ∧ request.source ≠ request.destination
    (apart →
      (∀ selection, ∃ flows, selected selection = .ok flows ∧
        ∀ flow, flow ∈ flows ↔ Candidate m.network m.store index request selection flow) ∧
      ∃ one shortest two all, selected .oneShortestPath = .ok one ∧
        selected .allShortestPaths = .ok shortest ∧ selected .allTwoShortestPaths = .ok two ∧
        selected .allFlows = .ok all ∧ (∀ flow ∈ one, flow ∈ shortest) ∧
        (∀ flow ∈ shortest, flow ∈ two) ∧ ∀ flow ∈ two, flow ∈ all) ∧
    (¬apart → ∀ selection e, selected selection = .error e ↔
      selection ≠ .allFlows ∧ e = .unindexed request.source request.destination 0) := by
  intro index selected apart
  obtain ⟨id, calls, built⟩ := reachable.built
  have layered : m.network.Layered := by
    rw [built]
    exact Network.layered_runAll id calls
  have tiers := PathIndex.tiers?_build m.network.linkGraph depth request.source request.destination
  simp only [layered.nodes] at tiers
  constructor
  · intro ⟨source, destination, other⟩
    rw [if_pos ⟨by omega, source, destination, other.symm⟩] at tiers
    have found := mem_select reachable.sound.linked layered tiers
    obtain ⟨one, answered_one, mem_one⟩ := found .oneShortestPath
    obtain ⟨shortest, answered_shortest, mem_shortest⟩ := found .allShortestPaths
    obtain ⟨two, answered_two, mem_two⟩ := found .allTwoShortestPaths
    obtain ⟨all, answered_all, mem_all⟩ := found .allFlows
    refine ⟨found, one, shortest, two, all, answered_one, answered_shortest, answered_two,
      answered_all, fun flow mem => ?_, fun flow mem => ?_, fun flow mem => ?_⟩
    · exact (mem_shortest flow).mpr (((mem_one flow).mp mem).mono (.inr ⟨nofun, by decide⟩))
    · exact (mem_two flow).mpr (((mem_shortest flow).mp mem).mono (.inr ⟨nofun, by decide⟩))
    · exact (mem_all flow).mpr (((mem_two flow).mp mem).mono (.inl rfl))
  · intro strange
    refine select_unindexed (tiers.trans (if_neg ?_))
    intro ⟨_, source, destination, other⟩
    exact strange ⟨source, destination, other.symm⟩

/-- Two ways between the hosts, with a flow on each. -/
def forkedManager : Manager Scripted (TokenBucket ℚ) ℚ :=
  Operation.runAll
    (.start
      (BuildingCall.runAll (.empty 0)
        [.host "left", .host "right", .simpleLink 0 1 1000, .node "between",
          .simpleLink 0 4 1000, .simpleLink 4 1 1000])
      ⟨[some [3], some [6, 8]]⟩ .empty none)
    [.createTenant "tenant", .createVm ⟨0⟩ "a" (.on ⟨0, 0⟩), .createVm ⟨0⟩ "b" (.on ⟨0, 1⟩),
      .createFlow (sampleDemand "first" 1), .createFlow (sampleDemand "second" 2)]

/-- The longer way is in the second tier. Nothing leads back, so the selections that look at paths
find nothing there, and of a node to itself they know nothing. -/
theorem select_of_forkedManager :
    let index := PathIndex.build forkedManager.network.linkGraph 2
    let selected (s t : NodeId) (selection : Selection) :=
      (select forkedManager.network forkedManager.store index ⟨s, t, 1, 1, 1⟩ selection).map
        (·.toList)
    selected 0 1 .allShortestPaths = .ok [⟨0⟩] ∧
      selected 0 1 .allTwoShortestPaths = .ok [⟨0⟩, ⟨1⟩] ∧
      selected 1 0 .allTwoShortestPaths = .ok [] ∧ selected 1 0 .allFlows = .ok [⟨0⟩, ⟨1⟩] ∧
      Candidate forkedManager.network forkedManager.store index ⟨0, 1, 1, 1, 1⟩
        .allTwoShortestPaths ⟨1⟩ ∧
      selected 4 4 .oneShortestPath = .error (.unindexed 4 4 0) := by
  intro index selected
  have reachable : forkedManager.Reachable := (Reachable.start 0 _ _ _ _).runAll _
  have found :=
    (select_of_reachable reachable (Nat.le_refl 2) ⟨0, 1, 1, 1, 1⟩).1 (by decide +kernel)
  have refused :=
    (select_of_reachable reachable (Nat.le_refl 2) ⟨4, 4, 1, 1, 1⟩).2 (by decide +kernel)
  have two_ways : selected 0 1 .allTwoShortestPaths = .ok [⟨0⟩, ⟨1⟩] := by decide +kernel
  refine ⟨by decide +kernel, two_ways, by decide +kernel, by decide +kernel, ?_, ?_⟩
  · obtain ⟨flows, answered, mem⟩ := found.1 .allTwoShortestPaths
    refine (mem ⟨1⟩).mp (Std.ExtTreeSet.mem_toList.mp ?_)
    have listed : flows.toList = [⟨0⟩, ⟨1⟩] := by
      simp only [selected] at two_ways
      rw [answered] at two_ways
      exact Except.ok.inj two_ways
    simp [listed]
  · exact congrArg (Except.map (·.toList)) ((refused .oneShortestPath _).mpr ⟨nofun, rfl⟩)

end Manager
end FlowAdmission
