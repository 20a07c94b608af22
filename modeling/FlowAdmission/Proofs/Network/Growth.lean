import FlowAdmission.Manager.Flows

/-!
# Networks only grow

A call that builds a network leaves the queues that are there as they are, with their links, their
ends and the first interfaces of the hosts (`Network.Wired.runAll`), because a new link and
its queues take numbers that were not given out. In a network that was built from nothing every
queue is found under its own edge, with a positive buffer and a share of a positive rate
(`Network.wired_runAll`).
-/
namespace FlowAdmission
namespace Network
variable {K : Type} {net net' net'' : Network K} {e : EdgeId} {link : Link K} {queue : Queue K}

/-- The node that a host was created with. -/
def firstInterface? (net : Network K) (h : HostId) : Option NodeId :=
  (net.host? h).bind (·.interfaces.head?)

/-- A single interface is the first one. -/
theorem firstInterface?_of_single {role : Role} {h : HostId} {n : NodeId}
    (single : net.singleInterface role h = .ok n) : net.firstInterface? h = some n := by
  unfold singleInterface at single
  split at single
  · cases single
  · rename_i host found
    split at single
    · rename_i interface only
      cases single
      simp [firstInterface?, found, only]
    · cases single

theorem queue?_eq_some :
    net.queue? e = some (link, queue) ↔
      ∃ l, net.linkOf? e = some l ∧ net.link? l = some link ∧
        link.queues.find? (·.edge == e) = some queue := by
  simp only [queue?, Option.bind_eq_bind, Option.bind_eq_some_iff]
  constructor
  · rintro ⟨l, owner, _, found, _, among, same⟩
    cases same
    exact ⟨l, owner, found, among⟩
  · rintro ⟨l, owner, found, among⟩
    exact ⟨l, owner, link, found, queue, among, rfl⟩

/-- What `net` has is in `net'` as it was. -/
structure Extends (net net' : Network K) : Prop where
  queues : ∀ {e link queue}, net.queue? e = some (link, queue) →
    net'.queue? e = some (link, queue)
  edges : ∀ {e edge}, net.queueGraph.edge? e = some edge → net'.queueGraph.edge? e = some edge
  interfaces : ∀ {h n}, net.firstInterface? h = some n → net'.firstInterface? h = some n

theorem Extends.refl (net : Network K) : Extends net net :=
  ⟨fun found => found, fun found => found, fun found => found⟩

theorem Extends.trans (first : Extends net net') (second : Extends net' net'') :
    Extends net net'' where
  queues found := second.queues (first.queues found)
  edges found := second.edges (first.edges found)
  interfaces found := second.interfaces (first.interfaces found)

/-! ### Hosts -/

/-- The first interface of a host stays the first. -/
theorem extends_addInterface {h : HostId} {n : NodeId}
    (answered : net.addInterface h = .ok (n, net')) : net.Extends net' := by
  unfold Network.addInterface at answered
  split at answered
  · cases answered
  · rename_i host found
    cases answered
    refine ⟨fun found => found, fun found => found, fun {i k} first => ?_⟩
    obtain ⟨other, live, head⟩ := Option.bind_eq_some_iff.mp first
    unfold Network.host? at found live
    split at found
    · split at live
      · rename_i here there
        refine Option.bind_eq_some_iff.mpr ?_
        have place : (net.hosts.set h.index
            { host with interfaces := host.interfaces ++ [net.nextId] })[i.index]? =
            if h.index = i.index then
              some { host with interfaces := host.interfaces ++ [net.nextId] }
            else net.hosts[i.index]? := by
          rw [List.getElem?_set]
          by_cases same : h.index = i.index
          · rw [if_pos same, if_pos same, if_pos (List.getElem?_eq_some_iff.mp found).1]
          · rw [if_neg same, if_neg same]
        by_cases same : h.index = i.index
        · rw [same, live] at found
          cases found
          refine ⟨{ host with interfaces := host.interfaces ++ [net.nextId] },
            (if_pos there).trans (place.trans (if_pos same)), ?_⟩
          rw [List.head?_append, head]
          rfl
        · exact ⟨other, (if_pos there).trans (place.trans ((if_neg same).trans live)), head⟩
      · cases live
    · cases found

theorem extends_createHost (name : String) : net.Extends (net.createHost name).2 := by
  refine ⟨fun found => found, fun found => found, fun {h n} first => ?_⟩
  obtain ⟨host, live, head⟩ := Option.bind_eq_some_iff.mp first
  refine Option.bind_eq_some_iff.mpr ⟨host, ?_, head⟩
  unfold Network.host? at live ⊢
  split at live
  · rename_i here
    refine (if_pos here).trans ?_
    exact (List.getElem?_append_left (List.getElem?_eq_some_iff.mp live).1).trans live
  · cases live

/-! ### The queues of a new link -/

section queues
variable {queues : List (Queue K)} {base : EdgeId} {share : K} {buffers : List K}

theorem foldl_addQueue (link : Link K) (queues : List (Queue K)) (net : Network K) :
    queues.foldl (addQueue link) net =
      { net with
        queueGraph := queues.foldl
          (fun g queue => g.addEdge queue.edge ⟨link.source, link.destination⟩) net.queueGraph
        queueOwner := queues.foldl (fun owners queue => owners.insert queue.edge link.edge)
          net.queueOwner } := by
  induction queues generalizing net with
  | nil => rfl
  | cons queue rest ih => exact ih (net.addQueue link queue)

theorem getElem?_foldl_insert (queues : List (Queue K)) (l : EdgeId)
    (owners : Std.ExtTreeMap EdgeId EdgeId) (e : EdgeId) :
    (queues.foldl (fun owners queue => owners.insert queue.edge l) owners)[e]? =
      if e ∈ queues.map (·.edge) then some l else owners[e]? := by
  induction queues generalizing owners with
  | nil => rfl
  | cons queue rest ih =>
    rw [List.foldl_cons, ih, Std.ExtTreeMap.getElem?_insert]
    by_cases later : e ∈ rest.map (·.edge)
    · simp [later]
    · by_cases now : queue.edge = e
      · simp [now]
      · simp [later, now, Ne.symm now]

/-- An edge keeps its ends; a queue that is new has the ends of the link. -/
theorem edge?_foldl_addEdge (queues : List (Queue K)) (ends : Edge) (g : Graph) (e : EdgeId) :
    (queues.foldl (fun g queue => g.addEdge queue.edge ends) g).edge? e =
      (g.edge? e).or (if e ∈ queues.map (·.edge) then some ends else none) := by
  induction queues generalizing g with
  | nil => simp
  | cons queue rest ih =>
    rw [List.foldl_cons, ih, Graph.edge?_addEdge]
    by_cases now : queue.edge = e
    · cases g.edge? e <;> simp [now]
    · simp [now, Ne.symm now]

theorem mem_queuesFrom :
    queue ∈ queuesFrom base share buffers ↔
      ∃ (i : Nat) (within : i < buffers.length), queue = ⟨base + i, i, buffers[i], share⟩ := by
  simp [queuesFrom, List.mem_mapIdx, eq_comm]

/-- The queues of a link have edges of their own. -/
theorem find?_queuesFrom (mem : queue ∈ queuesFrom base share buffers) :
    (queuesFrom base share buffers).find? (·.edge == queue.edge) = some queue := by
  cases found : (queuesFrom base share buffers).find? (·.edge == queue.edge) with
  | none => exact absurd (List.find?_eq_none.mp found queue mem) (by simp)
  | some other =>
    obtain ⟨i, _, rfl⟩ := mem_queuesFrom.mp mem
    obtain ⟨j, _, rfl⟩ := mem_queuesFrom.mp (List.mem_of_find?_eq_some found)
    have same := List.find?_some found
    simp only [beq_iff_eq, Nat.add_left_cancel_iff] at same
    subst same
    rfl

end queues

variable [Quantity K]

/-- The rate of a link and the buffers of its queues are positive, and its queues have even shares
of the rate. -/
structure Sized (link : Link K) : Prop where
  rate : 0 < link.rate
  share : ∀ queue ∈ link.queues, ∃ n : Nat, 0 < n ∧ queue.rateShare = 1 / (n : K)
  buffer : ∀ queue ∈ link.queues, 0 < queue.buffer

/-- No link and no queue has a number that was not given out, and the queues of a link are found
under their own edges. -/
structure Wired (net : Network K) : Prop where
  links_fresh : ∀ l, net.nextId ≤ l → net.link? l = none
  queues_fresh : ∀ e, net.nextId ≤ e → net.linkOf? e = none
  sized : ∀ {l link}, net.link? l = some link → Sized link
  queues : ∀ {l link queue}, net.link? l = some link → queue ∈ link.queues →
    net.queue? queue.edge = some (link, queue)

theorem wired_empty (id : Nat) : (empty id : Network K).Wired := by
  constructor <;> simp [empty, link?, linkOf?]

/-- The link that is entered with the next number. -/
def nextLink (net : Network K) (source destination : NodeId) (rate propagationDelay : K)
    (buffers : List K) : Link K :=
  ⟨net.nextId, source, destination, rate, propagationDelay,
    queuesFrom (net.nextId + 1) (1 / (buffers.length : K)) buffers⟩

section addLink
variable {source destination : NodeId} {rate propagationDelay : K} {buffers : List K}

theorem link?_addLink (l : EdgeId) :
    (net.addLink source destination rate propagationDelay buffers).2.link? l =
      if net.nextId = l then some (net.nextLink source destination rate propagationDelay buffers)
      else net.link? l := by
  simp only [addLink, foldl_addQueue, link?, Std.ExtTreeMap.getElem?_insert, Nat.compare_eq_eq]
  rfl

theorem linkOf?_addLink (e : EdgeId) :
    (net.addLink source destination rate propagationDelay buffers).2.linkOf? e =
      if e ∈ (net.nextLink source destination rate propagationDelay buffers).queues.map (·.edge)
      then some net.nextId else net.linkOf? e := by
  simp only [addLink, foldl_addQueue, linkOf?, getElem?_foldl_insert]
  rfl

theorem edge_nextLink (mem : queue ∈
    (net.nextLink source destination rate propagationDelay buffers).queues) :
    net.nextId < queue.edge ∧ ¬net.nextId + 1 + buffers.length ≤ queue.edge := by
  obtain ⟨i, within, rfl⟩ := mem_queuesFrom.mp mem
  constructor
  · show net.nextId < net.nextId + 1 + i
    omega
  · show ¬net.nextId + 1 + buffers.length ≤ net.nextId + 1 + i
    omega

end addLink

namespace Wired

/-- A queue that is found is a queue of a link. -/
theorem sized_of_queue? (wired : net.Wired) (found : net.queue? e = some (link, queue)) :
    Sized link ∧ queue ∈ link.queues := by
  obtain ⟨l, _, live, among⟩ := queue?_eq_some.mp found
  exact ⟨wired.sized live, List.mem_of_find?_eq_some among⟩

/-- What a network has besides links and queues does not matter. -/
theorem of_links (wired : net.Wired) (links : net'.links = net.links)
    (owners : net'.queueOwner = net.queueOwner) (next : net.nextId ≤ net'.nextId) :
    net'.Wired := by
  have link? : ∀ l, net'.link? l = net.link? l := fun l => by rw [Network.link?, links]; rfl
  have linkOf? : ∀ e, net'.linkOf? e = net.linkOf? e := fun e => by
    rw [Network.linkOf?, owners]
    rfl
  have queue? : ∀ e, net'.queue? e = net.queue? e := fun e => by
    simp only [Network.queue?, link?, linkOf?]
  refine ⟨fun e beyond => ?_, fun e beyond => ?_, fun {l link} live => ?_,
    fun {l link queue} live mem => ?_⟩
  · rw [link?]
    exact wired.links_fresh e (Nat.le_trans next beyond)
  · rw [linkOf?]
    exact wired.queues_fresh e (Nat.le_trans next beyond)
  · rw [link?] at live
    exact wired.sized live
  · rw [link?] at live
    rw [queue?]
    exact wired.queues live mem

section addLink
variable {source destination : NodeId} {rate propagationDelay : K} {buffers : List K}

/-- The numbers of a new link and its queues are not those of any other. -/
theorem extends_addLink (wired : net.Wired) :
    net.Extends (net.addLink source destination rate propagationDelay buffers).2 := by
  refine ⟨fun {e link queue} found => ?_, fun {e edge} found => ?_, fun {h n} found => ?_⟩
  · obtain ⟨l, owner, live, among⟩ := queue?_eq_some.mp found
    have old_queue : ¬net.nextId ≤ e := by
      intro beyond
      rw [wired.queues_fresh e beyond] at owner
      cases owner
    have old_link : ¬net.nextId ≤ l := by
      intro beyond
      rw [wired.links_fresh l beyond] at live
      cases live
    refine queue?_eq_some.mpr ⟨l, ?_, ?_, among⟩
    · rw [linkOf?_addLink, if_neg, owner]
      intro named
      obtain ⟨other, mem, same⟩ := List.mem_map.mp named
      have newer := (edge_nextLink mem).1
      rw [show other.edge = e from same] at newer
      omega
    · rw [link?_addLink, if_neg (by omega), live]
  · simp only [addLink, foldl_addQueue]
    rw [edge?_foldl_addEdge, found]
    rfl
  · simp only [addLink, foldl_addQueue]
    exact found

theorem addLink (wired : net.Wired)
    (sized : Sized (net.nextLink source destination rate propagationDelay buffers)) :
    (net.addLink source destination rate propagationDelay buffers).2.Wired := by
  have next : (net.addLink source destination rate propagationDelay buffers).2.nextId =
      net.nextId + 1 + buffers.length := by
    simp only [Network.addLink, foldl_addQueue]
  constructor
  · intro l beyond
    rw [next] at beyond
    rw [link?_addLink, if_neg (by omega)]
    exact wired.links_fresh l (by omega)
  · intro e beyond
    rw [next] at beyond
    rw [linkOf?_addLink, if_neg]
    · exact wired.queues_fresh e (by omega)
    · intro named
      obtain ⟨queue, mem, rfl⟩ := List.mem_map.mp named
      have older := (edge_nextLink mem).2
      omega
  · intro l link live
    rw [link?_addLink] at live
    split at live
    · cases live
      exact sized
    · exact wired.sized live
  · intro l link queue live mem
    rw [link?_addLink] at live
    split at live
    · cases live
      refine queue?_eq_some.mpr ⟨net.nextId, ?_, ?_, find?_queuesFrom mem⟩
      · rw [linkOf?_addLink, if_pos (List.mem_map_of_mem mem)]
      · rw [link?_addLink, if_pos rfl]
    · exact wired.extends_addLink.queues (wired.queues live mem)

theorem createLink (wired : net.Wired) {made : EdgeId}
    (answered : net.createLink source destination rate propagationDelay buffers =
      .ok (made, net')) : net'.Wired ∧ net.Extends net' := by
  unfold Network.createLink at answered
  split at answered
  · cases answered
  · split at answered
    · cases answered
    · split at answered
      · cases answered
      · rename_i right
        cases answered
        simp only [not_or, not_exists, not_and, Classical.not_not] at right
        obtain ⟨rate_pos, _, some_queue, buffers_pos⟩ := right
        refine ⟨wired.addLink ⟨rate_pos, fun queue mem => ?_, fun queue mem => ?_⟩,
          wired.extends_addLink⟩
        · obtain ⟨i, within, rfl⟩ := mem_queuesFrom.mp mem
          exact ⟨buffers.length, List.length_pos_iff.mpr some_queue, rfl⟩
        · obtain ⟨i, within, rfl⟩ := mem_queuesFrom.mp mem
          exact buffers_pos _ (List.getElem_mem within)

end addLink

/-- One call keeps what is there. -/
theorem run (wired : net.Wired) (call : BuildingCall K) :
    (call.run net).2.Wired ∧ net.Extends (call.run net).2 := by
  cases call with
  | host name =>
    exact ⟨wired.of_links rfl rfl (Nat.le_succ _), extends_createHost name⟩
  | interface h =>
    cases answered : net.addInterface h with
    | error e => simpa only [BuildingCall.run, answered] using ⟨wired, .refl net⟩
    | ok made =>
      have extended := extends_addInterface answered
      have wired' : made.2.Wired := by
        unfold Network.addInterface at answered
        split at answered
        · cases answered
        · cases answered
          exact wired.of_links rfl rfl (Nat.le_succ _)
      simpa only [BuildingCall.run, answered] using ⟨wired', extended⟩
  | node name =>
    exact ⟨wired.of_links rfl rfl (Nat.le_succ _), fun found => found, fun found => found,
      fun found => found⟩
  | link source destination rate propagationDelay buffers =>
    cases answered : net.createLink source destination rate propagationDelay buffers with
    | error e => simpa only [BuildingCall.run, answered] using ⟨wired, .refl net⟩
    | ok made => simpa only [BuildingCall.run, answered] using wired.createLink answered
  | simpleLink source destination rate =>
    cases answered : net.createSimpleLink source destination rate with
    | error e => simpa only [BuildingCall.run, answered] using ⟨wired, .refl net⟩
    | ok made => simpa only [BuildingCall.run, answered] using wired.createLink answered

theorem runAll (wired : net.Wired) (calls : List (BuildingCall K)) :
    (BuildingCall.runAll net calls).Wired ∧ net.Extends (BuildingCall.runAll net calls) := by
  induction calls generalizing net with
  | nil => exact ⟨wired, .refl net⟩
  | cons call rest ih =>
    obtain ⟨wired', first⟩ := wired.run call
    obtain ⟨wired'', later⟩ := ih wired'
    exact ⟨wired'', first.trans later⟩

end Wired

/-- Every network that was built from nothing. -/
theorem wired_runAll (id : Nat) (calls : List (BuildingCall K)) :
    (BuildingCall.runAll (empty id) calls).Wired :=
  ((wired_empty id).runAll calls).1

end Network
end FlowAdmission
