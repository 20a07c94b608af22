import FlowAdmission.Manager.Flows

/-!
# Whose node an interface is

In a network that was built call by call, every interface of a host is a node that names this host
as its own (`Network.owned_runAll`). So the single interfaces of two hosts are the same node only
if the hosts are the same (`Network.Owned.singleInterface_inj`).
-/
namespace FlowAdmission
namespace Network
variable {K : Type}

/-- The host that a node belongs to, if any. -/
def hostOf? (net : Network K) (n : NodeId) : Option HostId := net.nodes[n]?.bind (·.host)

/-- The host bears its number, and its interfaces are its own nodes. -/
structure Places (net : Network K) (i : Nat) (host : Host) : Prop where
  id : host.id = ⟨net.id, i⟩
  interfaces : ∀ n ∈ host.interfaces, net.hostOf? n = some host.id

/-- Every host stands in its place, and no node has a number that was not given out. -/
structure Owned (net : Network K) : Prop where
  fresh : ∀ n, net.nextId ≤ n → net.nodes[n]? = none
  hosts : ∀ i host, net.hosts[i]? = some host → net.Places i host

theorem owned_empty (id : Nat) : (empty id : Network K).Owned := by
  constructor <;> simp [empty]

/-- A host keeps its place when its nodes stay its own. -/
theorem Places.mono {net net' : Network K} {i : Nat} {host : Host} (places : net.Places i host)
    (id : net'.id = net.id)
    (kept : ∀ n h, net.hostOf? n = some h → net'.hostOf? n = some h) : net'.Places i host :=
  ⟨places.id.trans (by rw [id]), fun n listed => kept n _ (places.interfaces n listed)⟩

section nodes
variable {net : Network K} (owned : net.Owned) (name : String) (host : Option HostId)
include owned

/-- A new node takes the next number, under which there was none. -/
theorem Owned.hostOf?_addNode {n : NodeId} {h : HostId} (belongs : net.hostOf? n = some h) :
    (net.addNode name host).2.hostOf? n = some h := by
  have other : net.nextId ≠ n := by
    intro same
    subst same
    rw [hostOf?, owned.fresh _ (Nat.le_refl _)] at belongs
    cases belongs
  simpa [addNode, hostOf?, Std.ExtTreeMap.getElem?_insert, other] using belongs

theorem Owned.fresh_addNode {n : NodeId} (beyond : (net.addNode name host).2.nextId ≤ n) :
    (net.addNode name host).2.nodes[n]? = none := by
  simp only [addNode] at beyond ⊢
  have other : net.nextId ≠ n := by omega
  rw [Std.ExtTreeMap.getElem?_insert, if_neg (by simpa using other)]
  exact owned.fresh n (by omega)

theorem Owned.createNode : (net.createNode name).2.Owned :=
  ⟨fun _ => owned.fresh_addNode name none, fun i host found =>
    (owned.hosts i host found).mono rfl fun _ _ => owned.hostOf?_addNode name none⟩

end nodes

theorem hostOf?_addNode_self (net : Network K) (name : String) (host : Option HostId) :
    (net.addNode name host).2.hostOf? (net.addNode name host).1 = host := by
  simp [addNode, hostOf?]

namespace Owned
variable {net : Network K}

/-- A new host stands behind the others. -/
theorem createHost (owned : net.Owned) (name : String) : (net.createHost name).2.Owned := by
  refine ⟨fun n => owned.fresh_addNode _ _, fun i host found => ?_⟩
  have kept : ∀ n h, net.hostOf? n = some h → (net.createHost name).2.hostOf? n = some h :=
    fun n h => owned.hostOf?_addNode _ _
  have found : (net.hosts ++ [⟨⟨net.id, net.hosts.length⟩, name, [net.nextId]⟩])[i]? = some host :=
    found
  rcases Nat.lt_or_ge i net.hosts.length with old | new
  · rw [List.getElem?_append_left old] at found
    exact (owned.hosts i host found).mono rfl kept
  · rw [List.getElem?_append_right new, List.getElem?_singleton] at found
    split at found
    · rename_i at_end
      cases found
      have place : i = net.hosts.length := by omega
      refine ⟨by rw [place]; rfl, fun n listed => ?_⟩
      obtain rfl := List.mem_singleton.mp listed
      exact net.hostOf?_addNode_self _ _
    · cases found

/-- A new interface belongs to the host it was asked for. -/
theorem addInterface (owned : net.Owned) {h : HostId} {n : NodeId} {net' : Network K}
    (answered : net.addInterface h = .ok (n, net')) : net'.Owned := by
  unfold Network.addInterface Network.host? at answered
  split at answered
  · cases answered
  · rename_i host found
    split at found
    · cases answered
      rename_i same_network
      obtain ⟨named, interfaces⟩ := owned.hosts h.index host found
      have itself : host.id = h := by rw [named, ← same_network]
      have kept := fun n h' => owned.hostOf?_addNode (n := n) (h := h')
        (interfaceName host.name host.interfaces.length) (some h)
      refine ⟨fun n => owned.fresh_addNode _ _, fun i other found' => ?_⟩
      have found' : (net.hosts.set h.index
          { host with interfaces := host.interfaces ++ [net.nextId] })[i]? = some other := found'
      rw [List.getElem?_set] at found'
      split at found'
      · rename_i its_place
        split at found'
        · cases found'
          refine ⟨by rw [← its_place]; exact named, fun n listed => ?_⟩
          rcases List.mem_append.mp listed with old | new
          · exact kept n _ (interfaces n old)
          · obtain rfl := List.mem_singleton.mp new
            exact (net.hostOf?_addNode_self _ _).trans (congrArg some itself.symm)
        · cases found'
      · exact (owned.hosts i other found').mono rfl kept
    · cases found

/-- What a network has besides nodes and hosts does not matter. -/
theorem of_nodes (owned : net.Owned) {net' : Network K} (id : net'.id = net.id)
    (hosts : net'.hosts = net.hosts) (nodes : net'.nodes = net.nodes)
    (next : net.nextId ≤ net'.nextId) : net'.Owned := by
  refine ⟨fun n beyond => ?_, fun i host found => ?_⟩
  · rw [nodes]
    exact owned.fresh n (by omega)
  · rw [hosts] at found
    refine (owned.hosts i host found).mono id fun n h belongs => ?_
    rwa [hostOf?, nodes]

variable [Quantity K]

/-- Links leave nodes and hosts alone. -/
theorem addLink (owned : net.Owned) (source destination : NodeId) (rate propagationDelay : K)
    (buffers : List K) :
    (net.addLink source destination rate propagationDelay buffers).2.Owned := by
  have queued : ∀ (link : Link K) (queues : List (Queue K)) (net : Network K), net.Owned →
      (queues.foldl (addQueue link) net).Owned := by
    intro link queues
    induction queues with
    | nil => exact fun _ owned => owned
    | cons queue rest ih =>
      exact fun net owned => ih _ (owned.of_nodes rfl rfl rfl (Nat.le_refl _))
  refine queued _ _ _ (owned.of_nodes rfl rfl rfl ?_)
  show net.nextId ≤ net.nextId + 1 + buffers.length
  omega

theorem createLink (owned : net.Owned) {source destination : NodeId} {rate propagationDelay : K}
    {buffers : List K} {e : EdgeId} {net' : Network K}
    (answered : net.createLink source destination rate propagationDelay buffers =
      .ok (e, net')) : net'.Owned := by
  unfold Network.createLink at answered
  split at answered
  · cases answered
  · split at answered
    · cases answered
    · split at answered
      · cases answered
      · cases answered
        exact owned.addLink source destination rate propagationDelay buffers

theorem run (owned : net.Owned) (call : BuildingCall K) : (call.run net).2.Owned := by
  cases call with
  | host name => exact owned.createHost name
  | interface h =>
    cases answered : net.addInterface h with
    | error e => simpa only [BuildingCall.run, answered] using owned
    | ok made => simpa only [BuildingCall.run, answered] using owned.addInterface answered
  | node name => exact owned.createNode name
  | link source destination rate propagationDelay buffers =>
    cases answered : net.createLink source destination rate propagationDelay buffers with
    | error e => simpa only [BuildingCall.run, answered] using owned
    | ok made => simpa only [BuildingCall.run, answered] using owned.createLink answered
  | simpleLink source destination rate =>
    cases answered : net.createSimpleLink source destination rate with
    | error e => simpa only [BuildingCall.run, answered] using owned
    | ok made => simpa only [BuildingCall.run, answered] using owned.createLink answered

theorem runAll (owned : net.Owned) (calls : List (BuildingCall K)) :
    (BuildingCall.runAll net calls).Owned := by
  induction calls generalizing net with
  | nil => exact owned
  | cons call rest ih => exact ih (owned.run call)

omit [Quantity K] in
/-- The single interface of a host is a node of its own. -/
theorem hostOf?_singleInterface (owned : net.Owned) {role : Role} {h : HostId} {n : NodeId}
    (single : net.singleInterface role h = .ok n) : net.hostOf? n = some h := by
  unfold singleInterface host? at single
  split at single
  · cases single
  · rename_i host found
    split at found
    · rename_i same_network
      obtain ⟨named, interfaces⟩ := owned.hosts h.index host found
      split at single
      · rename_i interface only
        cases single
        rw [interfaces n (by rw [only]; exact List.mem_singleton_self n), named, ← same_network]
      · cases single
    · cases found

omit [Quantity K] in
/-- Hosts with the same single interface are the same. -/
theorem singleInterface_inj (owned : net.Owned) {role role' : Role} {h h' : HostId}
    {n n' : NodeId} (single : net.singleInterface role h = .ok n)
    (single' : net.singleInterface role' h' = .ok n') : n = n' ↔ h = h' := by
  have belongs := owned.hostOf?_singleInterface single
  have belongs' := owned.hostOf?_singleInterface single'
  constructor
  · intro same
    subst same
    exact Option.some.inj (belongs.symm.trans belongs')
  · intro same
    subst same
    unfold singleInterface at single single'
    split at single
    · cases single
    · rename_i host found
      rw [found] at single'
      dsimp only at single'
      split at single
      · rename_i interface only
        rw [only] at single'
        cases single
        cases single'
        rfl
      · cases single

end Owned

/-- Every network that was built from nothing. -/
theorem owned_runAll [Quantity K] (id : Nat) (calls : List (BuildingCall K)) :
    (BuildingCall.runAll (empty id) calls).Owned :=
  (owned_empty id).runAll calls

end Network
end FlowAdmission
