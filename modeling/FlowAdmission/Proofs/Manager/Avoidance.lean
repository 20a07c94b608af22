import FlowAdmission.Proofs.Manager.Selection
import FlowAdmission.Proofs.Network.Consistency

/-!
# What a moved flow avoids

The region of a blocked request spares the first and the last link of each of its paths. These
paths are free of loops, so none of them runs in its middle over a link that leaves the source of
the request or enters its destination: no queue of the region belongs to a host link of the
request, whichever path it came from (`Rerouting.avoidedEdges_of_built`).
-/
namespace FlowAdmission

namespace Graph
variable {g : Graph} {s t : NodeId} {p : Path} {l : EdgeId}

/-- In its middle a loop-free path neither leaves its start nor enters its end. -/
theorem SimplePath.ends_of_between (simple : g.SimplePath s p t) (mem : l ∈ p)
    (not_first : p.head? ≠ some l) (not_last : p.getLast? ≠ some l) :
    ∃ edge, g.edge? l = some edge ∧ edge.source ≠ s ∧ edge.target ≠ t := by
  obtain ⟨before, after, rfl⟩ := List.append_of_mem mem
  have some_before : before ≠ [] := by
    rintro rfl
    exact not_first rfl
  have some_after : after ≠ [] := by
    rintro rfl
    exact not_last List.getLast?_concat
  obtain ⟨a, to_link, b, edge, from_link⟩ := leads_append.mp simple.leads
  have distinct := simple.distinct
  rw [stops_append, stops_cons edge, List.nodup_cons, List.nodup_append, List.nodup_cons]
    at distinct
  obtain ⟨no_return, -, ⟨not_again, -⟩, -⟩ := distinct
  refine ⟨_, edge, ?_, ?_⟩
  · rintro rfl
    exact no_return (List.mem_append_left _ (to_link.end_mem_stops some_before))
  · rintro rfl
    exact not_again (from_link.end_mem_stops some_after)

end Graph

namespace Rerouting
variable {K : Type} {net : Network K} {index : PathIndex} {s t : NodeId} {p : Path}

/-- The first and the last edge of a path that has no edge twice are spared, all others are not. -/
theorem mem_inner {l : EdgeId} (distinct : p.Nodup) :
    l ∈ inner p ↔ l ∈ p ∧ p.head? ≠ some l ∧ p.getLast? ≠ some l := by
  unfold inner
  cases p with
  | nil => simp
  | cons first rest =>
    rcases List.eq_nil_or_concat rest with rfl | ⟨middle, last, rfl⟩
    · simp [eq_comm]
    · simp only [List.concat_eq_append, List.nodup_cons, List.nodup_append] at distinct
      obtain ⟨not_first, -, -, not_last⟩ := distinct
      have ends : (first :: middle.concat last).getLast? = some last := by
        rw [List.concat_eq_append, ← List.cons_append, List.getLast?_concat]
      rw [ends]
      simp only [List.tail_cons, List.concat_eq_append, List.dropLast_concat, List.mem_cons,
        List.mem_append, List.not_mem_nil, or_false, List.head?_cons, ne_eq, Option.some.injEq]
      constructor
      · intro inside
        refine ⟨.inr (.inl inside), ?_, ?_⟩
        · rintro rfl
          exact not_first (List.mem_append_left _ inside)
        · rintro rfl
          exact not_last _ inside _ List.mem_cons_self rfl
      · rintro ⟨rfl | inside | rfl, other_first, other_last⟩
        · exact absurd rfl other_first
        · exact inside
        · exact absurd rfl other_last

/-- The link paths of the blocked request that a region covers. -/
def Region.extent : Region → PathIndex.Extent
  | .ownPathOnly => .nothing
  | .shortestPath => .firstPath
  | .allShortestPaths => .firstTier
  | .allTwoShortestPaths => .twoTiers

theorem Region.paths_eq (region : Region) (index : PathIndex) (blocked : Request K) :
    region.paths index blocked =
      region.extent.paths index blocked.source blocked.destination := by
  cases region <;> rfl

/-- A queue of a link that a path of the region uses, but neither as its first nor as its last. -/
def InRegion (net : Network K) (index : PathIndex) (s t : NodeId) (region : Region)
    (e : EdgeId) : Prop :=
  ∃ p l, region.extent.Covers index s t p ∧ l ∈ p ∧ p.head? ≠ some l ∧
    p.getLast? ≠ some l ∧ net.linkOf? e = some l

/-- What is avoided along with one hop: only itself, or all queues of its link. -/
def Granularity.Spreads (net : Network K) (hop e : EdgeId) : Granularity → Prop
  | .queueLink => e = hop
  | .physicalLink => ∃ l, net.linkOf? hop = some l ∧ net.linkOf? e = some l

/-- A queue that is avoided because of a hop of the old path behind the first one. -/
def OnOldPath (net : Network K) (granularity : Granularity) (oldPath : Path) (e : EdgeId) : Prop :=
  ∃ i hop, 1 ≤ i ∧ oldPath[i]? = some hop ∧ granularity.Spreads net hop e

/-- From the narrowest region to the widest. -/
def Region.breadth : Region → Nat
  | .ownPathOnly => 0
  | .shortestPath => 1
  | .allShortestPaths => 2
  | .allTwoShortestPaths => 3

/-- From single queues to whole links. -/
def Granularity.breadth : Granularity → Nat
  | .queueLink => 0
  | .physicalLink => 1

theorem Region.breadth_extent (region : Region) : region.extent.breadth = region.breadth := by
  cases region <;> rfl

/-- A queue is one of the queues of its link. -/
theorem OnOldPath.mono {fine coarse : Granularity} {oldPath : Path} {e : EdgeId}
    (avoided : OnOldPath net fine oldPath e)
    (queues : ∀ hop ∈ oldPath, (net.linkOf? hop).isSome)
    (coarser : fine.breadth ≤ coarse.breadth) : OnOldPath net coarse oldPath e := by
  obtain ⟨i, hop, later, found, spreads⟩ := avoided
  refine ⟨i, hop, later, found, ?_⟩
  cases fine with
  | queueLink =>
    cases coarse with
    | queueLink => exact spreads
    | physicalLink =>
      obtain rfl : e = hop := spreads
      obtain ⟨l, owner⟩ := Option.isSome_iff_exists.mp (queues e (List.mem_of_getElem? found))
      exact ⟨l, owner, owner⟩
  | physicalLink =>
    cases coarse with
    | queueLink => exact absurd coarser (by decide)
    | physicalLink => exact spreads

/-- What is avoided along the old path. -/
theorem mem_flatMap_avoided (layered : net.Layered) {granularity : Granularity} {oldPath : Path}
    {e : EdgeId} :
    e ∈ oldPath.tail.flatMap (granularity.avoided net) ↔ OnOldPath net granularity oldPath e := by
  have spreads (hop : EdgeId) :
      e ∈ granularity.avoided net hop ↔ granularity.Spreads net hop e := by
    cases granularity with
    | queueLink => simp [Granularity.avoided, Granularity.Spreads]
    | physicalLink =>
      unfold Granularity.avoided Granularity.Spreads
      cases owner : net.linkOf? hop with
      | none => simp
      | some l => simp [layered.owners]
  simp only [List.mem_flatMap, spreads, OnOldPath]
  constructor
  · rintro ⟨hop, later, avoided⟩
    obtain ⟨i, found⟩ := List.mem_iff_getElem?.mp later
    rw [List.getElem?_tail] at found
    exact ⟨i + 1, hop, by omega, found, avoided⟩
  · rintro ⟨i, hop, later, found, avoided⟩
    refine ⟨hop, List.mem_iff_getElem?.mpr ⟨i - 1, ?_⟩, avoided⟩
    rwa [List.getElem?_tail, Nat.sub_add_cancel later]

/-- What is avoided of the region. -/
theorem mem_flatMap_inner (layered : net.Layered) {depth : Nat} {region : Region}
    {paths : List Path} {e : EdgeId}
    (covers : ∀ p, p ∈ paths ↔ region.extent.Covers (PathIndex.build net.linkGraph depth) s t p) :
    e ∈ (paths.flatMap inner).flatMap net.queueEdges ↔
      InRegion net (PathIndex.build net.linkGraph depth) s t region e := by
  simp only [List.mem_flatMap, covers, ← layered.owners, InRegion]
  constructor
  · rintro ⟨l, ⟨p, covered, inside⟩, owner⟩
    obtain ⟨mem, not_first, not_last⟩ := (mem_inner covered.simplePath.nodup).mp inside
    exact ⟨p, l, covered, mem, not_first, not_last, owner⟩
  · rintro ⟨p, l, covered, mem, not_first, not_last, owner⟩
    exact ⟨l, ⟨p, covered, (mem_inner covered.simplePath.nodup).mpr ⟨mem, not_first, not_last⟩⟩,
      owner⟩

/-- A queue of the region neither leaves the source nor enters the destination. -/
theorem InRegion.spares (layered : net.Layered) {depth : Nat} {region : Region} {e : EdgeId}
    (inside : InRegion net (PathIndex.build net.linkGraph depth) s t region e) :
    ∃ edge, net.queueGraph.edge? e = some edge ∧ edge.source ≠ s ∧ edge.target ≠ t := by
  obtain ⟨p, l, covered, mem, not_first, not_last, owner⟩ := inside
  rw [layered.edge?_of_mem ((layered.owners e l).mp owner)]
  exact covered.simplePath.ends_of_between mem not_first not_last

/-- An index that is deep enough for a configuration tells which queues are avoided. -/
theorem avoidedEdges_eq (layered : net.Layered) {c : Configuration} {depth : Nat}
    (deep : c.indexDepth ≤ depth) {blocked : Request K}
    (source : (net.node? blocked.source).isSome)
    (destination : (net.node? blocked.destination).isSome)
    (apart : blocked.source ≠ blocked.destination) (oldPath : Path) :
    ∃ avoided, avoidedEdges net (PathIndex.build net.linkGraph depth) c oldPath blocked =
        .ok avoided ∧
      ∀ e, e ∈ avoided ↔
        InRegion net (PathIndex.build net.linkGraph depth) blocked.source blocked.destination
          c.region e ∨ OnOldPath net c.granularity oldPath e := by
  have tiers := PathIndex.tiers?_build net.linkGraph depth blocked.source blocked.destination
  simp only [layered.nodes] at tiers
  have needed : c.region.extent ≠ .nothing → 0 < depth := by
    intro wider
    have looks : 0 < c.region.tiers := by
      cases region : c.region <;> simp_all [Region.tiers, Region.extent]
    have known : c.region.tiers ≤ c.indexDepth := Nat.le_max_right _ _
    omega
  obtain ⟨paths, answered, covers⟩ := c.region.extent.paths_eq fun wider =>
    ⟨_, tiers.trans (if_pos ⟨needed wider, source, destination, apart.symm⟩)⟩
  refine ⟨_, by rw [avoidedEdges, Region.paths_eq, answered]; rfl, fun e => ?_⟩
  simp only [Std.ExtTreeSet.mem_ofList, List.contains_eq_mem, decide_eq_true_eq, List.mem_append]
  rw [mem_flatMap_inner layered covers, mem_flatMap_avoided layered]

/-- In every network and for every configuration, with an index that is deep enough: between two
different nodes the queues to avoid are those of the region and those along the old path. No queue
of the region leaves the source or enters the destination, and with a wider region or whole links
instead of queues no fewer queues are avoided. -/
theorem avoidedEdges_of_built [Quantity K] (id : Nat) (calls : List (BuildingCall K))
    (c : Configuration) (depth : Nat) (blocked : Request K) (oldPath : Path) :
    let net : Network K := BuildingCall.runAll (.empty id) calls
    let index := PathIndex.build net.linkGraph depth
    c.indexDepth ≤ depth → (net.node? blocked.source).isSome →
    (net.node? blocked.destination).isSome → blocked.source ≠ blocked.destination →
    (∀ hop ∈ oldPath, (net.queue? hop).isSome) →
    ∃ avoided, avoidedEdges net index c oldPath blocked = .ok avoided ∧
      (∀ e, e ∈ avoided ↔ InRegion net index blocked.source blocked.destination c.region e ∨
        OnOldPath net c.granularity oldPath e) ∧
      (∀ e, InRegion net index blocked.source blocked.destination c.region e →
        ∃ edge, net.queueGraph.edge? e = some edge ∧ edge.source ≠ blocked.source ∧
          edge.target ≠ blocked.destination) ∧
      ∀ c' : Configuration, c'.indexDepth ≤ depth → c.region.breadth ≤ c'.region.breadth →
        c.granularity.breadth ≤ c'.granularity.breadth →
        ∃ avoided', avoidedEdges net index c' oldPath blocked = .ok avoided' ∧
          ∀ e ∈ avoided, e ∈ avoided' := by
  intro net index deep source destination apart queues
  have wired : net.Wired := Network.wired_runAll id calls
  have layered : net.Layered := Network.layered_runAll id calls
  obtain ⟨avoided, answered, mem⟩ :=
    avoidedEdges_eq layered deep source destination apart oldPath
  refine ⟨avoided, answered, mem, fun e inside => inside.spares layered,
    fun c' deep' wider coarser => ?_⟩
  obtain ⟨avoided', answered', mem'⟩ :=
    avoidedEdges_eq layered deep' source destination apart oldPath
  refine ⟨avoided', answered', fun e listed => (mem' e).mpr ?_⟩
  rcases (mem e).mp listed with ⟨p, l, covered, inside⟩ | along
  · rw [← c.region.breadth_extent, ← c'.region.breadth_extent] at wider
    exact .inl ⟨p, l, covered.mono wider, inside⟩
  · refine .inr (along.mono (fun hop used => ?_) coarser)
    rw [← Network.isSome_queue? wired layered]
    exact queues hop used

/-- Two switches joined by a link of two queues and by a link of one, between two hosts. -/
def switchedCalls : List (BuildingCall ℚ) :=
  [.host "left", .host "right", .node "west", .node "east", .link 0 2 1000 0 [10, 10],
    .link 2 3 1000 0 [10, 10], .simpleLink 2 3 1000, .simpleLink 3 1 1000]

/-- Whole links between the switches, for a request from host to host. -/
def switchedConfiguration (region : Region) : Configuration :=
  ⟨.allFlows, .unsorted, .physicalLink, region, .absolute 1, trivial⟩

/-- The two ways differ in the middle only. The first one alone has the queues 8 and 9 there, both
together have 11 as well; of the old path the last hop is avoided and the first is not. -/
theorem avoidedEdges_of_switched :
    let net := BuildingCall.runAll (.empty 0) switchedCalls
    let avoided (region : Region) := avoidedEdges net (PathIndex.build net.linkGraph 1)
      (switchedConfiguration region) [5, 8, 13] ⟨0, 1, 1, 1, 1⟩
    (avoided .shortestPath).map (·.toList) = .ok [8, 9, 13] ∧
      (avoided .allShortestPaths).map (·.toList) = .ok [8, 9, 11, 13] ∧
      ∃ narrow wide, avoided .shortestPath = .ok narrow ∧ avoided .allShortestPaths = .ok wide ∧
        ∀ e ∈ narrow, e ∈ wide := by
  refine ⟨by decide +kernel, by decide +kernel, ?_⟩
  obtain ⟨narrow, answered, -, -, grows⟩ :=
    avoidedEdges_of_built 0 switchedCalls (switchedConfiguration .shortestPath) 1
      ⟨0, 1, 1, 1, 1⟩ [5, 8, 13] (by decide) (by decide +kernel) (by decide +kernel) (by decide)
      (by decide +kernel)
  obtain ⟨wide, answered', more⟩ :=
    grows (switchedConfiguration .allShortestPaths) (by decide) (by decide) (by decide)
  exact ⟨narrow, wide, answered, answered', more⟩

end Rerouting
end FlowAdmission
