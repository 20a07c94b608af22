import FlowAdmission.Proofs.Graph.Tiers
import FlowAdmission.Proofs.Manager.Frames
import FlowAdmission.Proofs.Network.Layers

/-!
# The path index of a manager

A manager's path index is always the one of its current network, as deep as its configuration asks
for (`Manager.ReachableFrom.indexed`). Every pair of different nodes is in it then, so a search for
room is never refused by the index, and neither is a call that creates a flow
(`Manager.index_of_reachable`).
-/
namespace FlowAdmission
variable {R C K : Type}

namespace Rerouting
variable {env : Setting K} {blocked : Request K}

/-- The index has the pair of the request, unless the configuration asks for no tier at all. -/
def Serves (env : Setting K) (blocked : Request K) : Prop :=
  0 < env.configuration.indexDepth →
    (env.index.tiers? blocked.source blocked.destination).isSome

namespace Serves

theorem firstPaths (serves : Serves env blocked) {asked : Nat} (asks : 0 < asked)
    (covered : asked ≤ env.configuration.indexDepth) :
    ∃ tiers : List Tier, ∀ levels,
      env.index.firstPaths blocked.source blocked.destination levels =
        .ok (tiers.take levels).flatten := by
  have ⟨tiers, known⟩ := Option.isSome_iff_exists.mp (serves (by omega))
  exact ⟨tiers, by simp [PathIndex.firstPaths, known]⟩

theorem select (serves : Serves env blocked) (s : Store K) :
    ∃ candidates, Rerouting.select env.network s env.index blocked env.configuration.selection =
      .ok candidates := by
  have covered : env.configuration.selection.tiers ≤ env.configuration.indexDepth := by
    simp [Configuration.indexDepth]
  cases chosen : env.configuration.selection <;> rw [chosen] at covered
  case allFlows => exact ⟨_, rfl⟩
  all_goals
    have ⟨tiers, known⟩ := serves.firstPaths (by decide) covered
    exact ⟨_, by simp only [Rerouting.select, known]; rfl⟩

theorem rank [Quantity K] (serves : Serves env blocked) (s : Store K) (candidates : FlowSet) :
    ∃ flows, Rerouting.rank env.network s env.index blocked candidates env.configuration.order =
      .ok flows := by
  have covered : env.configuration.order.tiers ≤ env.configuration.indexDepth := by
    simp [Configuration.indexDepth]
  cases chosen : env.configuration.order <;> rw [chosen] at covered
  case commonEdges =>
    have ⟨tiers, known⟩ := serves.firstPaths (by decide) covered
    exact ⟨_, by simp only [Rerouting.rank, known]; rfl⟩
  all_goals exact ⟨_, rfl⟩

theorem paths (serves : Serves env blocked) :
    ∃ paths, env.configuration.region.paths env.index blocked = .ok paths := by
  have covered : env.configuration.region.tiers ≤ env.configuration.indexDepth := by
    simp [Configuration.indexDepth]
  cases chosen : env.configuration.region <;> rw [chosen] at covered
  case ownPathOnly => exact ⟨_, rfl⟩
  all_goals
    have ⟨tiers, known⟩ := serves.firstPaths (by decide) covered
    exact ⟨_, by simp only [Region.paths, known]; rfl⟩

theorem tryOrder [Quantity K] (serves : Serves env blocked) (s : Store K) :
    ∃ flows, Rerouting.tryOrder env s blocked = .ok flows := by
  have ⟨candidates, selected⟩ := serves.select s
  have ⟨ranked, ordered⟩ := serves.rank s candidates
  refine ⟨ranked.take (env.configuration.maxAttempts candidates.size), ?_⟩
  simp [Rerouting.tryOrder, selected, ordered, bind, Except.bind, pure, Except.pure]

variable {R C : Type} [Quantity K] [CostModel C K] [Router R C K]

/-- A search that has begun comes to its end. -/
theorem tryEach (serves : Serves env blocked) (x : Embedder R C K) (flows : List FlowId)
    (record : Record) :
    ∃ outcome, (Rerouting.tryEach env blocked flows record x).1 = .ok outcome := by
  cases answered : (Rerouting.tryEach env blocked flows record x).1 with
  | ok outcome => exact ⟨outcome, rfl⟩
  | error e =>
    have ⟨paths, known⟩ := serves.paths
    have unknown := (tryEach_error (Prod.ext answered rfl)).2
    rw [known] at unknown
    cases unknown

theorem makeRoom (serves : Serves env blocked) (x : Embedder R C K) :
    ∃ outcome, (Rerouting.makeRoom env x blocked).1 = .ok outcome := by
  have ⟨flows, ordered⟩ := serves.tryOrder x.store
  simpa only [Rerouting.makeRoom, ordered] using serves.tryEach x flows {}

end Serves
end Rerouting

namespace Manager

/-- The path index is the one that the configuration needs on the current network. -/
def Indexed (m : Manager R C K) : Prop := m.index = indexFor m.network m.configuration

variable {m : Manager R C K}

theorem Indexed.of_surroundings {m' : Manager R C K} (indexed : m.Indexed)
    (same : m'.surroundings = m.surroundings) : m'.Indexed := by
  simp only [surroundings, Prod.mk.injEq] at same
  rw [Indexed, same.1, same.2.1, same.2.2]
  exact indexed

/-- The index is built anew with every change of the topology. -/
theorem Indexed.updateTopology {α : Type} (indexed : m.Indexed)
    (change : Network K → α × Network K) : (m.updateTopology change).2.Indexed := by
  simp only [Indexed, Manager.updateTopology]
  cases configured : m.configuration with
  | some c => rfl
  | none => simpa [Indexed, configured, indexFor] using indexed

section attempt
variable [CostModel C K]

theorem surroundings_attempt {α : Type} (m : Manager R C K)
    (body : Transaction K → Except Error α × Transaction K) :
    (m.attempt body).2.surroundings = m.surroundings := by
  unfold attempt
  split <;> rfl

end attempt

variable [Quantity K] [CostModel C K] [Router R C K]

/-- Calls that leave the topology alone leave the index alone. -/
theorem surroundings_run (m : Manager R C K) (operation : Operation K)
    (settled : ∀ calls, operation ≠ .extendTopology calls) :
    (operation.run m).2.surroundings = m.surroundings := by
  cases operation with
  | createTenant name =>
    show (m.createTenant name).2.surroundings = _
    unfold createTenant
    split
    · rfl
    · exact surroundings_attempt m _
  | createVm tenant name placement =>
    show (m.createVm tenant name placement).2.surroundings = _
    unfold createVm
    split
    · rfl
    · split
      · rfl
      · exact surroundings_attempt m _
  | setConnection vm connection => exact surroundings_attempt m _
  | createFlow demand => exact surroundings_createFlow m demand
  | deleteFlow flow => rfl
  | deleteVm vm => rfl
  | deleteTenant tenant => rfl
  | extendTopology calls => exact absurd rfl (settled calls)

/-- The network of a manager was built from nothing. -/
theorem Reachable.built (reachable : m.Reachable) :
    ∃ id calls, m.network = BuildingCall.runAll (.empty id) calls := by
  induction reachable with
  | start id calls router costs configuration => exact ⟨id, calls, rfl⟩
  | rebuild _ id calls _ => exact ⟨id, calls, rfl⟩
  | @run m _ operation ih =>
    obtain ⟨id, calls, built⟩ := ih
    by_cases settled : ∀ more, operation ≠ .extendTopology more
    · have same := congrArg Prod.fst (m.surroundings_run operation settled)
      exact ⟨id, calls, same.trans built⟩
    · simp only [not_forall, not_not] at settled
      obtain ⟨more, rfl⟩ := settled
      refine ⟨id, calls ++ more, ?_⟩
      show BuildingCall.runAll m.network more = _
      rw [built, BuildingCall.runAll, BuildingCall.runAll, BuildingCall.runAll, List.foldl_append]

namespace ReachableFrom
variable {costs : C} {configuration : Option Rerouting.Configuration}

/-- The configuration is the first one, and the index follows the network. -/
theorem indexed (reached : m.ReachableFrom costs configuration) :
    m.configuration = configuration ∧ m.Indexed := by
  induction reached with
  | start id calls router => exact ⟨rfl, rfl⟩
  | rebuild _ id calls ih => exact ⟨ih.1, ih.2.updateTopology _⟩
  | @run m _ operation ih =>
    by_cases settled : ∀ more, operation ≠ .extendTopology more
    · have same := m.surroundings_run operation settled
      exact ⟨(congrArg (·.2.1) same).trans ih.1, ih.2.of_surroundings same⟩
    · simp only [not_forall, not_not] at settled
      obtain ⟨more, rfl⟩ := settled
      exact ⟨ih.1, ih.2.updateTopology fun net => ((), BuildingCall.runAll net more)⟩

/-- Every request between different nodes finds its pair in the index. -/
theorem serves {c : Rerouting.Configuration} (reached : m.ReachableFrom costs (some c))
    {blocked : Request K} (source : blocked.source ∈ m.network.linkGraph.nodes)
    (destination : blocked.destination ∈ m.network.linkGraph.nodes)
    (apart : blocked.source ≠ blocked.destination) :
    Rerouting.Serves ⟨m.network, m.index, c⟩ blocked := by
  obtain ⟨configured, indexed⟩ := reached.indexed
  intro positive
  have built : m.index = .build m.network.linkGraph c.indexDepth := by
    rw [indexed, configured]
    rfl
  simp only [built, PathIndex.tiers?_build]
  rw [if_pos ⟨positive, source, destination, apart.symm⟩]
  rfl

end ReachableFrom

/-- The end nodes of a demand that passes are nodes of the link graph. -/
theorem Reachable.ends_mem (reachable : m.Reachable) {d : FlowDemand K} {t : Transaction K}
    {n n' : NodeId} (passed : (d.check m.network t).1 = .ok (n, n')) :
    n ∈ m.network.linkGraph.nodes ∧ n' ∈ m.network.linkGraph.nodes := by
  obtain ⟨v, w, _, _, _, source, destination⟩ := d.check_ok m.network passed
  obtain ⟨id, calls, built⟩ := reachable.built
  have layered : m.network.Layered := by
    rw [built]
    exact Network.layered_runAll id calls
  have owned := reachable.sound.owned
  exact ⟨layered.mem_nodes_of_single owned source,
    layered.mem_nodes_of_single owned destination⟩

omit [Quantity K] [Router R C K] in
theorem insertFlow_ne_error (m : Manager R C K) (flow : Flow K) (e : Error) :
    (m.insertFlow flow).1 ≠ .error e := nofun

/-- The only error that making room could add to a call is one of the index. -/
theorem createFlow_ne_unindexed {s t : NodeId} {level : Nat} {d : FlowDemand K}
    (served : ∀ n n' (x : Embedder R C K) env,
      (d.check m.network m.store.begin).1 = .ok (n, n') → n ≠ n' → m.setting? = some env →
      ∃ outcome, (Rerouting.makeRoom env x (d.request n n')).1 = .ok outcome) :
    (m.createFlow d).1 ≠ .error (.unindexed s t level) := by
  unfold createFlow
  split
  · nofun
  · split
    · rename_i e _ answered
      have refusal : (d.check m.network m.store.begin).1 = .error e := congrArg Prod.fst answered
      have reason := d.refuses_check m.network _ e refusal
      rintro ⟨⟩
      exact reason
    · rename_i n n' checked answered
      have passed : (d.check m.network m.store.begin).1 = .ok (n, n') :=
        congrArg Prod.fst answered
      obtain rfl : { m with store := (d.check m.network m.store.begin).2.rollback } = checked :=
        congrArg Prod.snd answered
      unfold createBetween
      split
      · exact insertFlow_ne_error _ _ _
      · rename_i apart
        dsimp only
        split
        · exact insertFlow_ne_error _ _ _
        · unfold createBlockedFlow
          split
          · nofun
          · rename_i x _ _ env configured
            obtain ⟨outcome, found⟩ := served n n' x env passed apart configured
            split <;> rename_i tried <;> rw [tried] at found
            · cases found
            · nofun
            · exact insertFlow_ne_error _ _ _

/-- A manager with a rerouting configuration has the path index of its current network, as deep as
the configuration needs. No call that creates a flow is refused by the index, because a search for
room comes to its end for every request between two different nodes, whatever it finds in the store
and whatever the router answers. -/
theorem index_of_reachable {costs : C} {c : Rerouting.Configuration}
    (reached : m.ReachableFrom costs (some c)) :
    m.index = .build m.network.linkGraph c.indexDepth ∧
    (∀ d s t level, (m.createFlow d).1 ≠ .error (.unindexed s t level)) ∧
    ∀ (x : Embedder R C K) (blocked : Request K),
      blocked.source ∈ m.network.linkGraph.nodes →
      blocked.destination ∈ m.network.linkGraph.nodes →
      blocked.source ≠ blocked.destination →
      ∃ outcome, (Rerouting.makeRoom ⟨m.network, m.index, c⟩ x blocked).1 = .ok outcome := by
  obtain ⟨configured, indexed⟩ := reached.indexed
  refine ⟨?_, fun d s t level => createFlow_ne_unindexed ?_, ?_⟩
  · rw [indexed, configured]
    rfl
  · intro n n' x env passed apart setting
    rw [setting?, configured] at setting
    cases setting
    have ⟨source, destination⟩ := reached.reachable.ends_mem passed
    exact (reached.serves source destination apart).makeRoom x
  · intro x blocked source destination apart
    exact (reached.serves source destination apart).makeRoom x

/-- A configuration that looks at two tiers. -/
def twoTiers : Rerouting.Configuration :=
  ⟨.allTwoShortestPaths, .commonEdges, .physicalLink, .allShortestPaths, .percent 50,
    (by decide : 50 ≤ 100)⟩

/-- The network has grown a second way since the manager was started. -/
def grownManager : Manager Scripted (TokenBucket ℚ) ℚ :=
  Operation.runAll
    (.start (BuildingCall.runAll (.empty 0) [.host "left", .host "right", .simpleLink 0 1 1000])
      ⟨[some [3], none, none]⟩ .empty (some twoTiers))
    [.createTenant "tenant", .createVm ⟨0⟩ "a" (.on ⟨0, 0⟩), .createVm ⟨0⟩ "b" (.on ⟨0, 1⟩),
      .createFlow (sampleDemand "first" 1),
      .extendTopology [.node "between", .simpleLink 0 4 1000, .simpleLink 4 1 1000]]

/-- The new way is in the index. A search that moves nothing comes to its end, and the call that
began it is refused for want of room. -/
theorem index_of_grownManager :
    grownManager.index = .build grownManager.network.linkGraph 2 ∧
      grownManager.index.tier 0 1 1 = .ok [[5, 7]] ∧
      (∀ s t level, (grownManager.createFlow (sampleDemand "second" 2)).1 ≠
        .error (.unindexed s t level)) ∧
      (grownManager.createFlow (sampleDemand "second" 2)).1 =
        .error (.infeasible "second" (some ⟨[⟨0⟩], [], []⟩)) ∧
      ∃ outcome, (Rerouting.makeRoom ⟨grownManager.network, grownManager.index, twoTiers⟩
        grownManager.toEmbedder ((sampleDemand "second" 2).request 0 1)).1 = .ok outcome := by
  have reached : grownManager.ReachableFrom .empty (some twoTiers) :=
    (ReachableFrom.start 0 _ _).runAll _
  obtain ⟨index, answers, search⟩ := index_of_reachable reached
  have source : 0 ∈ grownManager.network.linkGraph.nodes := by decide +kernel
  have destination : 1 ∈ grownManager.network.linkGraph.nodes := by decide +kernel
  exact ⟨index, by decide +kernel, answers _, by decide +kernel,
    search _ _ source destination (by decide)⟩

end Manager
end FlowAdmission
