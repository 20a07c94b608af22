import FlowAdmission.Proofs.Network.Layers

/-!
# The tables of a network agree

A network keeps its nodes, links and queues in two graphs and several tables, and one counter
numbers them all. In a network that was built from nothing, by calls that may have been refused,
no number was given out twice, the tables tell the same, a refused call changes nothing and no call
changes what is there (`Network.consistent_runAll`).
-/
namespace FlowAdmission

/-- The numbers that came with an answer: that of a node, or those of a link and its queues. -/
def Built.numbers {K : Type} (net : Network K) : Built → List Nat
  | .host h => ((net.host? h).map (·.interfaces)).getD []
  | .node n => [n]
  | .link l => l :: net.queueEdges l

namespace BuildingCall
variable {K : Type} [Quantity K]

/-- The numbers that a call gives out. -/
def issued (net : Network K) (call : BuildingCall K) : List Nat :=
  match call.run net with
  | (.ok built, net') => built.numbers net'
  | (.error _, _) => []

/-- The numbers that a list of calls gives out, in order. -/
def issuedAll (net : Network K) : List (BuildingCall K) → List Nat
  | [] => []
  | call :: rest => call.issued net ++ issuedAll (call.run net).2 rest

end BuildingCall

namespace Network
variable {K : Type} {net net' : Network K}

/-- How many nodes, links and queues have the number `n`. -/
def bearers (net : Network K) (n : Nat) : Nat :=
  (net.node? n).isSome.toNat + (net.link? n).isSome.toNat + (net.queue? n).isSome.toNat

/-- The graphs and the tables of a network tell the same. -/
structure Consistent (net : Network K) : Prop where
  nodes : ∀ n, n ∈ net.linkGraph.nodes ↔ (net.node? n).isSome
  queue_nodes : ∀ n, n ∈ net.queueGraph.nodes ↔ (net.node? n).isSome
  links : ∀ l, net.linkGraph.edge? l = (net.link? l).map Link.ends
  queues : ∀ e, net.queueGraph.edge? e = (net.queue? e).map (·.1.ends)
  node_ids : ∀ {n node}, net.node? n = some node → node.id = n
  link_ids : ∀ {l link}, net.link? l = some link → link.edge = l
  queue_ids : ∀ {e link queue}, net.queue? e = some (link, queue) →
    queue.edge = e ∧ net.linkOf? e = some link.edge ∧ net.link? link.edge = some link
  owners : ∀ e l, e ∈ net.queueEdges l ↔ net.linkOf? e = some l
  served : ∀ {l link}, net.link? l = some link → link.queues ≠ []
  priorities : ∀ {l link}, net.link? l = some link →
    link.queues.map (·.priority) = List.range link.queues.length
  found : ∀ e, (net.queue? e).isSome ↔ (net.queueGraph.edge? e).isSome
  interfaces : ∀ {h host n}, net.host? h = some host → n ∈ host.interfaces →
    (∃ node, net.node? n = some node ∧ node.host = some h) ∧
      ∀ {h' host'}, net.host? h' = some host' → n ∈ host'.interfaces → h' = h

/-- The nodes, links, queues and first interfaces of `net` are in `net'` as they were. -/
structure Preserves (net net' : Network K) : Prop extends net.Extends net' where
  nodes : ∀ {n node}, net.node? n = some node → net'.node? n = some node
  links : ∀ {l link}, net.link? l = some link → net'.link? l = some link

/-! ### What a call does -/

section calls
variable [Quantity K]

/-- A call is refused, enters one node, or enters a link between two nodes. -/
theorem run_cases (call : BuildingCall K) (net : Network K) :
    (∃ e, call.run net = (.error e, net)) ∨
    (∃ built name host hosts,
      call.run net = (.ok built, { (net.addNode name host).2 with hosts := hosts }) ∧
      built.numbers { (net.addNode name host).2 with hosts := hosts } = [net.nextId]) ∨
    (∃ source destination rate propagationDelay buffers, buffers ≠ [] ∧
      call.run net = (.ok (.link net.nextId),
        (net.addLink source destination rate propagationDelay buffers).2)) := by
  have linked : ∀ source destination rate propagationDelay buffers,
      (∃ e, net.createLink source destination rate propagationDelay buffers = .error e) ∨
      buffers ≠ [] ∧ net.createLink source destination rate propagationDelay buffers =
        .ok (net.addLink source destination rate propagationDelay buffers) := by
    intro source destination rate propagationDelay buffers
    unfold createLink
    split
    · exact .inl ⟨_, rfl⟩
    · split
      · exact .inl ⟨_, rfl⟩
      · split
        · exact .inl ⟨_, rfl⟩
        · rename_i right
          simp only [not_or] at right
          exact .inr ⟨right.2.2.1, rfl⟩
  cases call with
  | host name =>
    refine .inr (.inl ⟨_, _, _, _, rfl, ?_⟩)
    simp [Built.numbers, host?, addNode]
  | interface h =>
    cases found : net.host? h with
    | none => exact .inl ⟨.foreignHost none h, by simp only [BuildingCall.run, addInterface, found]⟩
    | some host =>
      refine .inr (.inl ⟨.node net.nextId, interfaceName host.name host.interfaces.length, some h,
        net.hosts.set h.index { host with interfaces := host.interfaces ++ [net.nextId] }, ?_, rfl⟩)
      simp only [BuildingCall.run, addInterface, found]
      rfl
  | node name => exact .inr (.inl ⟨_, _, _, net.hosts, rfl, rfl⟩)
  | link source destination rate propagationDelay buffers =>
    rcases linked source destination rate propagationDelay buffers with
      ⟨e, refused⟩ | ⟨some_queue, made⟩
    · exact .inl ⟨e, by simp only [BuildingCall.run, refused]⟩
    · exact .inr (.inr ⟨_, _, _, _, _, some_queue, by simp only [BuildingCall.run, made]; rfl⟩)
  | simpleLink source destination rate =>
    rcases linked source destination rate 0 [simpleBuffer] with ⟨e, refused⟩ | ⟨some_queue, made⟩
    · exact .inl ⟨e, by simp only [BuildingCall.run, createSimpleLink, refused]⟩
    · exact .inr (.inr ⟨_, _, _, _, _, some_queue, by
        simp only [BuildingCall.run, createSimpleLink, made]; rfl⟩)

theorem run_of_error {call : BuildingCall K} {e : Error} (refused : (call.run net).1 = .error e) :
    (call.run net).2 = net := by
  rcases run_cases call net with ⟨e', ran⟩ | ⟨built, name, host, hosts, ran, -⟩ |
    ⟨source, destination, rate, propagationDelay, buffers, -, ran⟩
  · rw [ran]
  · rw [ran] at refused
    cases refused
  · rw [ran] at refused
    cases refused

theorem nextId_addLink (net : Network K) (source destination : NodeId) (rate propagationDelay : K)
    (buffers : List K) :
    (net.addLink source destination rate propagationDelay buffers).2.nextId =
      net.nextId + (1 + buffers.length) := by
  simp only [addLink, foldl_addQueue]
  omega

/-- The queues of a new link take the numbers behind its own. -/
theorem edges_nextLink (net : Network K) (source destination : NodeId) (rate propagationDelay : K)
    (buffers : List K) :
    (net.nextLink source destination rate propagationDelay buffers).queues.map (·.edge) =
      List.range' (net.nextId + 1) buffers.length := by
  simp only [nextLink, queuesFrom]
  refine List.ext_getElem (by simp) fun i _ _ => ?_
  simp

/-- A call gives out the next numbers, without a gap. -/
theorem issued_eq (call : BuildingCall K) (net : Network K) :
    ∃ n, (call.run net).2.nextId = net.nextId + n ∧
      call.issued net = List.range' net.nextId n := by
  unfold BuildingCall.issued
  rcases run_cases call net with ⟨e, ran⟩ | ⟨built, name, host, hosts, ran, numbers⟩ |
    ⟨source, destination, rate, propagationDelay, buffers, -, ran⟩
  · exact ⟨0, by rw [ran]; rfl, by rw [ran]; rfl⟩
  · exact ⟨1, by rw [ran]; rfl, by rw [ran]; exact numbers⟩
  · refine ⟨1 + buffers.length, by rw [ran]; exact nextId_addLink .., ?_⟩
    rw [ran]
    simp only [Built.numbers]
    rw [Layered.queueEdges_addLink, if_pos rfl, edges_nextLink, Nat.add_comm 1, List.range'_succ]

theorem issuedAll_eq (calls : List (BuildingCall K)) (net : Network K) :
    ∃ n, (BuildingCall.runAll net calls).nextId = net.nextId + n ∧
      BuildingCall.issuedAll net calls = List.range' net.nextId n := by
  induction calls generalizing net with
  | nil => exact ⟨0, rfl, rfl⟩
  | cons call rest ih =>
    obtain ⟨m, next, now⟩ := issued_eq call net
    obtain ⟨n, next', later⟩ := ih (call.run net).2
    refine ⟨m + n, ?_, ?_⟩
    · rw [← Nat.add_assoc, ← next]
      exact next'
    · rw [BuildingCall.issuedAll, now, later, next, List.range'_append_1]

/-- From nothing on, the numbers given out are those below the counter. -/
theorem issuedAll_empty (id : Nat) (calls : List (BuildingCall K)) :
    BuildingCall.issuedAll (empty id) calls =
      List.range (BuildingCall.runAll (empty id) calls).nextId := by
  obtain ⟨n, next, numbers⟩ := issuedAll_eq calls (empty id)
  have zero : (empty id : Network K).nextId = 0 := rfl
  rw [numbers, next, zero, Nat.zero_add, List.range_eq_range']

end calls

/-! ### Numbers -/

/-- Every number given out has one bearer, which knows it, and the queues of a link stand in the
order of their priorities. -/
structure Counted (net : Network K) : Prop where
  bears : ∀ n, net.bearers n = if n < net.nextId then 1 else 0
  node_ids : ∀ {n node}, net.node? n = some node → node.id = n
  link_ids : ∀ {l link}, net.link? l = some link → link.edge = l
  priorities : ∀ {l link}, net.link? l = some link →
    link.queues.map (·.priority) = List.range link.queues.length

theorem counted_empty (id : Nat) : (empty id : Network K).Counted := by
  constructor <;> simp [empty, bearers, node?, link?, queue?, linkOf?]

variable [Quantity K]

/-- A queue is found as soon as its link is known. -/
theorem isSome_queue? (wired : net.Wired) (layered : net.Layered) (e : EdgeId) :
    (net.queue? e).isSome = (net.linkOf? e).isSome := by
  cases owner : net.linkOf? e with
  | none => simp [queue?, owner]
  | some l =>
    have among := (layered.owners e l).mp owner
    unfold queueEdges at among
    cases live : net.link? l with
    | none => simp [live] at among
    | some link =>
      rw [live] at among
      obtain ⟨queue, mem, rfl⟩ := List.mem_map.mp among
      rw [wired.queues live mem]
      rfl

namespace Counted

omit [Quantity K] in
/-- A new node bears the next number. -/
theorem addNode (counted : net.Counted) (name : String) (host : Option HostId)
    (hosts : List Host) : { (net.addNode name host).2 with hosts := hosts }.Counted := by
  have node? : ∀ n, { (net.addNode name host).2 with hosts := hosts }.node? n =
      if net.nextId = n then some ⟨net.nextId, name, host⟩ else net.node? n := fun n => by
    simp [Network.addNode, Network.node?, Std.ExtTreeMap.getElem?_insert]
  refine ⟨fun n => ?_, fun {n node} found => ?_, counted.link_ids, counted.priorities⟩
  · have before := counted.bears n
    unfold bearers at before ⊢
    rw [node?]
    show _ + (net.link? n).isSome.toNat + (net.queue? n).isSome.toNat =
      if n < net.nextId + 1 then 1 else 0
    by_cases new : net.nextId = n
    · subst new
      rw [if_neg (Nat.lt_irrefl _)] at before
      simp only [if_true, Nat.lt_succ_self, Option.isSome_some, Bool.toNat_true]
      omega
    · rw [if_neg new, before]
      have older : n < net.nextId ↔ n < net.nextId + 1 := by omega
      simp only [older]
  · rw [node?] at found
    split at found
    · cases found
      assumption
    · exact counted.node_ids found

/-- A new link and its queues bear the next numbers. -/
theorem addLink (counted : net.Counted) {source destination : NodeId} {rate propagationDelay : K}
    {buffers : List K} (wired : net.Wired) (layered : net.Layered)
    (wired' : (net.addLink source destination rate propagationDelay buffers).2.Wired)
    (layered' : (net.addLink source destination rate propagationDelay buffers).2.Layered) :
    (net.addLink source destination rate propagationDelay buffers).2.Counted := by
  have nodes : ∀ n, (net.addLink source destination rate propagationDelay buffers).2.node? n =
      net.node? n := fun n => by simp only [Network.addLink, foldl_addQueue, node?]
  refine ⟨fun n => ?_, fun {n node} found => counted.node_ids (nodes n ▸ found),
    fun {l link} live => ?_, fun {l link} live => ?_⟩
  · have before := counted.bears n
    unfold bearers at before ⊢
    rw [isSome_queue? wired layered] at before
    rw [isSome_queue? wired' layered', nodes, link?_addLink, linkOf?_addLink, nextId_addLink,
      edges_nextLink]
    simp only [List.mem_range'_1]
    by_cases link : net.nextId = n
    · subst link
      rw [if_neg (Nat.lt_irrefl _)] at before
      rw [if_pos rfl, if_neg (by omega), if_pos (by omega), Option.isSome_some, Bool.toNat_true]
      omega
    · rw [if_neg link]
      by_cases queue : net.nextId + 1 ≤ n ∧ n < net.nextId + 1 + buffers.length
      · rw [if_neg (by omega)] at before
        rw [if_pos queue, if_pos (by omega), Option.isSome_some, Bool.toNat_true]
        omega
      · rw [if_neg queue, before]
        have older : n < net.nextId ↔ n < net.nextId + (1 + buffers.length) := by omega
        simp only [older]
  · rw [link?_addLink] at live
    split at live
    · cases live
      assumption
    · exact counted.link_ids live
  · rw [link?_addLink] at live
    split at live
    · cases live
      refine List.ext_getElem (by simp) fun i _ _ => ?_
      simp [nextLink, queuesFrom]
    · exact counted.priorities live

theorem run (counted : net.Counted) (wired : net.Wired) (layered : net.Layered)
    (call : BuildingCall K) : (call.run net).2.Counted := by
  have wired' := (wired.run call).1
  have layered' := layered.run wired call
  rcases run_cases call net with ⟨e, ran⟩ | ⟨built, name, host, hosts, ran, -⟩ |
    ⟨source, destination, rate, propagationDelay, buffers, -, ran⟩
  · rw [ran]
    exact counted
  · rw [ran]
    exact counted.addNode name host hosts
  · rw [ran] at wired' layered' ⊢
    exact counted.addLink wired layered wired' layered'

theorem runAll (counted : net.Counted) (wired : net.Wired) (layered : net.Layered)
    (calls : List (BuildingCall K)) : (BuildingCall.runAll net calls).Counted := by
  induction calls generalizing net with
  | nil => exact counted
  | cons call rest ih =>
    exact ih (counted.run wired layered call) (wired.run call).1 (layered.run wired call)

end Counted

/-- Every network that was built from nothing. -/
theorem counted_runAll (id : Nat) (calls : List (BuildingCall K)) :
    (BuildingCall.runAll (empty id) calls).Counted :=
  (counted_empty id).runAll (wired_empty id) (layered_empty id) calls

/-! ### The tables -/

omit [Quantity K] in
/-- A host is found in its own place. -/
theorem Owned.hostOf?_interface (owned : net.Owned) {h : HostId} {host : Host} {n : NodeId}
    (found : net.host? h = some host) (listed : n ∈ host.interfaces) : net.hostOf? n = some h := by
  unfold host? at found
  split at found
  · rename_i here
    obtain ⟨named, interfaces⟩ := owned.hosts h.index host found
    rw [interfaces n listed, named, ← here]
  · cases found

/-- A queue has the ends of its link. -/
theorem queueEdge?_eq (wired : net.Wired) (layered : net.Layered) (e : EdgeId) :
    net.queueGraph.edge? e = (net.queue? e).map (·.1.ends) := by
  rw [layered.queues]
  cases found : net.queue? e with
  | none =>
    have unowned : net.linkOf? e = none := by
      simpa [found] using (isSome_queue? wired layered e).symm
    rw [unowned]
    rfl
  | some pair =>
    obtain ⟨l, owner, live, -⟩ := queue?_eq_some.mp found
    rw [owner, Option.bind_some, layered.links, live]
    rfl

theorem Counted.consistent (counted : net.Counted) (wired : net.Wired) (owned : net.Owned)
    (layered : net.Layered) : net.Consistent where
  nodes := layered.nodes
  queue_nodes := layered.queue_nodes
  links := layered.links
  queues := queueEdge?_eq wired layered
  node_ids := counted.node_ids
  link_ids := counted.link_ids
  queue_ids {e link queue} found := by
    obtain ⟨l, owner, live, among⟩ := queue?_eq_some.mp found
    have its_number := counted.link_ids live
    subst its_number
    exact ⟨by simpa using List.find?_some among, owner, live⟩
  owners e l := (layered.owners e l).symm
  served {l link} live none_queued := by
    refine layered.served live ?_
    simp [queueEdges, live, none_queued]
  priorities := counted.priorities
  found e := by rw [queueEdge?_eq wired layered, Option.isSome_map]
  interfaces {h host n} found listed := by
    have belongs := owned.hostOf?_interface found listed
    refine ⟨?_, fun {h' host'} found' listed' => ?_⟩
    · obtain ⟨node, live, its_host⟩ := Option.bind_eq_some_iff.mp belongs
      exact ⟨node, live, its_host⟩
    · exact Option.some.inj ((owned.hostOf?_interface found' listed').symm.trans belongs)

/-- New nodes and links have numbers that nothing else has. -/
theorem preserves_run (wired : net.Wired) (owned : net.Owned) (call : BuildingCall K) :
    net.Preserves (call.run net).2 := by
  refine ⟨(wired.run call).2, fun {n node} found => ?_, fun {l link} live => ?_⟩
  · have old : net.nextId ≠ n := by
      rintro rfl
      rw [node?, owned.fresh _ (Nat.le_refl _)] at found
      cases found
    rcases run_cases call net with ⟨e, ran⟩ | ⟨built, name, host, hosts, ran, -⟩ |
      ⟨source, destination, rate, propagationDelay, buffers, -, ran⟩
    · rw [ran]
      exact found
    · rw [ran]
      simpa [Network.addNode, node?, Std.ExtTreeMap.getElem?_insert, old] using found
    · rw [ran]
      simpa only [addLink, foldl_addQueue, node?] using found
  · have old : net.nextId ≠ l := by
      rintro rfl
      rw [wired.links_fresh _ (Nat.le_refl _)] at live
      cases live
    rcases run_cases call net with ⟨e, ran⟩ | ⟨built, name, host, hosts, ran, -⟩ |
      ⟨source, destination, rate, propagationDelay, buffers, -, ran⟩
    · rw [ran]
      exact live
    · rw [ran]
      exact live
    · rw [ran, link?_addLink, if_neg old]
      exact live

/-- However a network came about, its numbers were given out once, each to one node, link or queue,
and its tables agree. The next call leaves it alone if it is refused, and what is there in any
case. -/
theorem consistent_runAll (id : Nat) (calls : List (BuildingCall K)) (call : BuildingCall K) :
    let net : Network K := BuildingCall.runAll (empty id) calls
    let issued := BuildingCall.issuedAll (empty id) calls
    issued.Nodup ∧ (∀ n, net.bearers n = if n ∈ issued then 1 else 0) ∧ net.Consistent ∧
      (∀ e, (call.run net).1 = .error e → (call.run net).2 = net) ∧
      net.Preserves (call.run net).2 := by
  intro net issued
  have wired : net.Wired := wired_runAll id calls
  have owned : net.Owned := owned_runAll id calls
  have layered : net.Layered := layered_runAll id calls
  have counted : net.Counted := counted_runAll id calls
  have numbers : issued = List.range net.nextId := issuedAll_empty id calls
  refine ⟨?_, fun n => ?_, counted.consistent wired owned layered, fun e => run_of_error,
    preserves_run wired owned call⟩
  · rw [numbers]
    exact List.nodup_range
  · rw [numbers, counted.bears n]
    simp only [List.mem_range]

end Network
end FlowAdmission
