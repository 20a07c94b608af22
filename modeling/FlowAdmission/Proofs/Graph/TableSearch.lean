import FlowAdmission.Proofs.Graph.Adjacency
import FlowAdmission.Proofs.Graph.Queue
import FlowAdmission.Proofs.Graph.ShortestPath

/-!
# The search over hash tables

Tables that are read alike are searched alike, whatever the weights are (`ReadAlike.shortest?`).

Over tables that agree, the search answers as the search by labels does on the graph that they
describe, wherever costs are compared as an order compares them (`Linked.shortest?_eq`). The two go
in step (`Sweep.Tracks`): a node that is not settled has the distance of its label, the edges of the
label's trail are remembered, and the queue serves the labels. No look-up misses then.
-/
namespace FlowAdmission
variable {W : Type} [Weight W]

namespace Adjacency
variable {a a' : Adjacency} {weight : EdgeId → Option W} {target n : NodeId}
  {settled : Std.HashSet NodeId} {s : Sweep W} {turn : Turn W} {rest : List (Turn W)}

/-- The query over the graph that the tables describe. -/
def query (a : Adjacency) (weight : EdgeId → Option W) (source target : NodeId) : PathQuery W :=
  ⟨a.graph, weight, source, target⟩

/-- Tables that agree, for a query over the graph that they describe. -/
structure Serves (a : Adjacency) (q : PathQuery W) : Prop where
  linked : a.Linked
  shown : q.graph = a.graph
  orders : q.OrdersCosts

/-! ### Turn by turn -/

theorem settled?_eq_none_iff : a.settled? settled n = none ↔ n ∉ settled ∧ n ∉ a.stars := by
  by_cases mem : n ∈ settled <;> by_cases known : n ∈ a.stars <;>
    simp [settled?, mem, known]

theorem settled?_eq_true_iff : a.settled? settled n = some true ↔ n ∈ settled := by
  by_cases mem : n ∈ settled <;> by_cases known : n ∈ a.stars <;>
    simp [settled?, mem, known]

theorem settled?_eq_false_iff :
    a.settled? settled n = some false ↔ n ∉ settled ∧ n ∈ a.stars := by
  by_cases mem : n ∈ settled <;> by_cases known : n ∈ a.stars <;>
    simp [settled?, mem, known]

theorem sweep_nil (empty : s.queue = []) : a.sweep weight target settled s = some s := by
  rw [sweep]
  split <;> simp_all

theorem sweep_missing (first : s.queue = turn :: rest)
    (missing : a.settled? settled turn.node = none) : a.sweep weight target settled s = none := by
  rw [sweep]
  split
  · simp_all
  · split <;> simp_all

theorem sweep_pass (first : s.queue = turn :: rest)
    (done : a.settled? settled turn.node = some true) :
    a.sweep weight target settled s = a.sweep weight target settled { s with queue := rest } := by
  rw [sweep]
  split
  · simp_all
  · split <;> simp_all

theorem sweep_arrived (first : s.queue = turn :: rest)
    (fresh : a.settled? settled turn.node = some false) (arrived : turn.node = target) :
    a.sweep weight target settled s = some s := by
  rw [sweep]
  split
  · simp_all
  · split <;> simp_all

theorem sweep_settle (first : s.queue = turn :: rest)
    (fresh : a.settled? settled turn.node = some false) (onward : turn.node ≠ target) :
    a.sweep weight target settled s =
      ((a.outEdges turn.node).foldlM (a.follow weight (settled.insert turn.node) turn.cost)
        { s with queue := rest }).bind (a.sweep weight target (settled.insert turn.node)) := by
  rw [sweep]
  split
  · simp_all
  · split <;> simp_all

/-! ### Tables that are read alike -/

namespace ReadAlike

theorem mem_stars (alike : a.ReadAlike a') {n : NodeId} : n ∈ a'.stars ↔ n ∈ a.stars := by
  rw [← mem_nodes, ← mem_nodes, alike.nodes]

theorem settled? (alike : a.ReadAlike a') (settled : Std.HashSet NodeId) (n : NodeId) :
    a'.settled? settled n = a.settled? settled n := by
  simp only [Adjacency.settled?, Std.HashMap.contains_iff_mem, alike.mem_stars]

theorem follow (alike : a.ReadAlike a') (weight : EdgeId → Option W)
    (settled : Std.HashSet NodeId) (here : W) :
    a'.follow weight settled here = a.follow weight settled here := by
  funext s e
  simp only [Adjacency.follow, alike.edges, alike.settled?]

/-- A turn reads nothing but nodes and edges, so all turns go alike. -/
theorem sweep (alike : a.ReadAlike a') :
    a'.sweep weight target settled s = a.sweep weight target settled s := by
  induction settled, s using Adjacency.sweep.induct a target with
  | case1 settled s empty => rw [sweep_nil empty, sweep_nil empty]
  | case2 settled s turn rest first missing =>
    rw [sweep_missing first missing, sweep_missing first (alike.settled? _ _ ▸ missing)]
  | case3 settled s turn rest first done ih =>
    rw [sweep_pass first done, sweep_pass first (alike.settled? _ _ ▸ done), ih]
  | case4 settled s turn rest first fresh arrived =>
    rw [sweep_arrived first fresh arrived,
      sweep_arrived first (alike.settled? _ _ ▸ fresh) arrived]
  | case5 settled s turn rest first fresh onward ih =>
    rw [sweep_settle first fresh onward, sweep_settle first (alike.settled? _ _ ▸ fresh) onward,
      alike.outEdges, alike.follow, funext ih]

theorem walkBack (alike : a.ReadAlike a') (via : Std.HashMap NodeId EdgeId) (source : NodeId)
    (limit : Nat) (n : NodeId) (path : Path) :
    a'.walkBack via source limit n path = a.walkBack via source limit n path := by
  induction limit generalizing n path with
  | zero => rfl
  | succ limit ih => simp only [Adjacency.walkBack, alike.edges, ih]

/-- Whatever the weights are, tables that are read alike are searched alike. -/
theorem shortest? (alike : a.ReadAlike a') (weight : EdgeId → Option W) (source target : NodeId) :
    a'.shortest? weight source target = a.shortest? weight source target := by
  have wayTo? : a'.wayTo? source target = (a.wayTo? source target : Sweep W → _) := by
    funext s
    simp only [Adjacency.wayTo?, alike.walkBack]
  simp only [Adjacency.shortest?, Std.HashMap.contains_iff_mem, alike.mem_stars, alike.sweep,
    wayTo?]

end ReadAlike
end Adjacency

/-! ### Two searches in step -/

namespace Sweep
variable {a : Adjacency} {q : PathQuery W} {settled : Std.HashSet NodeId} {s : Sweep W}
  {labels : Search W} {n m : NodeId} {label : Label W} {e : EdgeId} {c : W}

theorem offer_of_cheaper (cheaper : ∀ known, s.distance[n]? = some known → c < known) :
    s.offer n e c = {
      distance := s.distance.insert n c
      via := s.via.insert n e
      queue := insertStable precedes ⟨c, n⟩ s.queue } := by
  unfold offer
  cases found : s.distance[n]? with
  | none => rfl
  | some known => simp [cheaper known found]

theorem offer_of_known {known : W} (found : s.distance[n]? = some known)
    (no_cheaper : ¬c < known) : s.offer n e c = s := by
  simp [offer, found, no_cheaper]

/-- The tables know the edge by which each node of a trail was reached. -/
def Remembers (a : Adjacency) (via : Std.HashMap NodeId EdgeId) (trail : List EdgeId) : Prop :=
  ∀ i ∈ trail, ∀ edge, a.edge? i = some edge → via[edge.target]? = some i

/-- A new way to a node that is not on the trail leaves it as it is. -/
theorem Remembers.insert {via : Std.HashMap NodeId EdgeId} {trail : List EdgeId}
    (remembers : Remembers a via trail)
    (apart : ∀ i ∈ trail, ∀ edge, a.edge? i = some edge → n ≠ edge.target) (e : EdgeId) :
    Remembers a (via.insert n e) trail := by
  intro i mem edge found
  rw [Std.HashMap.getElem?_insert, if_neg (by simpa using apart i mem edge found)]
  exact remembers i mem edge found

/-- The search over the tables has come as far as the search by labels. -/
structure Tracks (a : Adjacency) (q : PathQuery W) (settled : Std.HashSet NodeId) (s : Sweep W)
    (labels : Search W) : Prop where
  settled : ∀ n, n ∈ settled ↔ n ∈ labels.settled
  distance : ∀ n, n ∉ labels.settled → s.distance[n]? = labels.frontier[n]?.map (·.cost)
  remembers : ∀ {n : NodeId} {l : Label W}, labels.frontier[n]? = some l → Remembers a s.via l.trail
  known : ∀ t ∈ s.queue, t.node ∈ a.stars
  queued : Queued q labels s.queue

/-- The edges of a trail end at the labelled node and at settled ones. -/
theorem target_of_mem_trail {old : Std.ExtTreeSet NodeId} (shown : q.graph = a.graph)
    (reached : Search.Reached q old n label) {i : EdgeId} (mem : i ∈ label.trail) {edge : Edge}
    (found : a.edge? i = some edge) : edge.target = n ∨ edge.target ∈ old := by
  rw [← a.edge?_graph, ← shown] at found
  obtain ⟨edge', found', -, target⟩ := reached.leads.edge_of_mem (List.mem_reverse.mpr mem)
  rw [found] at found'
  cases found'
  exact reached.inside _ (List.mem_cons_of_mem _ target)

/-- A cheaper way to a node, over an edge that leaves a settled one. -/
theorem Tracks.insert (tracks : Tracks a q settled s labels) (serves : a.Serves q)
    (labelled : Search.Labelled q labels) (known : m ∈ a.stars)
    (edge : a.edge? e = some ⟨n, m⟩) {trail : List EdgeId}
    (reached : Search.Reached q labels.settled m ⟨c, e :: trail⟩)
    (back : Remembers a (s.via.insert m e) trail)
    (cheaper : ∀ l, labels.frontier[m]? = some l → c < l.cost) :
    Tracks a q settled {
        distance := s.distance.insert m c
        via := s.via.insert m e
        queue := insertStable precedes ⟨c, m⟩ s.queue }
      { labels with frontier := labels.frontier.insert m ⟨c, e :: trail⟩ } := by
  refine ⟨tracks.settled, fun x fresh => ?_, fun {x l} found => ?_, fun t mem => ?_,
    tracks.queued.offer serves.orders ⟨_, reached.loopFree, reached.costs⟩ cheaper⟩
  · have before := tracks.distance x fresh
    by_cases same : m = x
    · simp [same]
    · simpa [Std.HashMap.getElem?_insert, Std.ExtTreeMap.getElem?_insert, same] using before
  · by_cases same : m = x
    · subst same
      simp only [Std.ExtTreeMap.getElem?_insert_self, Option.some.injEq] at found
      subst found
      refine List.forall_mem_cons.mpr ⟨fun edge' found => ?_, back⟩
      rw [edge] at found
      cases found
      exact Std.HashMap.getElem?_insert_self
    · simp only [Std.ExtTreeMap.getElem?_insert, Nat.compare_eq_eq, same, if_false] at found
      refine (tracks.remembers found).insert (fun i mem edge' found' same' => ?_) e
      rcases target_of_mem_trail serves.shown (labelled found) mem found' with end_ | old
      · exact same (same'.trans end_)
      · exact reached.outside (same' ▸ old)
  · rcases List.mem_cons.mp ((insertStable_perm _ _ _).mem_iff.mp mem) with rfl | old
    · exact known
    · exact tracks.known t old

/-- An offer over an edge that leaves a settled node does the same to both. -/
theorem Tracks.offer (tracks : Tracks a q settled s labels) (serves : a.Serves q)
    (labelled : Search.Labelled q labels) (known : m ∈ a.stars)
    (edge : a.edge? e = some ⟨n, m⟩) {trail : List EdgeId}
    (reached : Search.Reached q labels.settled m ⟨c, e :: trail⟩)
    (back : Remembers a s.via trail)
    (inside : ∀ i ∈ trail, ∀ edge, a.edge? i = some edge → edge.target ∈ labels.settled) :
    Tracks a q settled (s.offer m e c) (labels.offer m ⟨c, e :: trail⟩) ∧
      Remembers a (s.offer m e c).via trail := by
  have distance := tracks.distance m reached.outside
  rcases labels.offer_self m ⟨c, e :: trail⟩ with ⟨-, cheaper⟩ | ⟨l, found, no_cheaper, -⟩
  · have back' : Remembers a (s.via.insert m e) trail := by
      refine back.insert (fun i mem edge found same => ?_) e
      exact reached.outside (same ▸ inside i mem edge found)
    have cheaper' : ∀ known, s.distance[m]? = some known → c < known := by
      intro known found
      rw [distance, Option.map_eq_some_iff] at found
      obtain ⟨l, found, rfl⟩ := found
      exact cheaper l found
    rw [Search.offer_of_cheaper cheaper, offer_of_cheaper cheaper']
    exact ⟨tracks.insert serves labelled known edge reached back' cheaper, back'⟩
  · rw [found] at distance
    rw [Search.offer_of_known found no_cheaper, offer_of_known distance no_cheaper]
    exact ⟨tracks, back⟩

/-! ### Settling a node -/

section settling
variable {old : Std.ExtTreeSet NodeId} {here : Label W} {turn : Turn W} {rest : List (Turn W)}

/-- Over tables that agree, following an edge misses no look-up. -/
theorem Tracks.follow (tracks : Tracks a q settled s labels) (serves : a.Serves q)
    (labelled : Search.Labelled q labels)
    (reached : Search.Reached q old n here) (now : labels.settled = old.insert n)
    (back : Remembers a s.via here.trail) (out : e ∈ a.outEdges n) :
    ∃ s', a.follow q.weight settled here.cost s e = some s' ∧
      Tracks a q settled s' (Search.relax q here labels e) ∧ Remembers a s'.via here.trail := by
  obtain ⟨⟨source, target⟩, edge, rfl⟩ :=
    (serves.linked.leaving _ e).mp (Adjacency.mem_outEdges.mp out)
  have edge' : q.graph.edge? e = some ⟨source, target⟩ := by
    rw [serves.shown, a.edge?_graph, edge]
  unfold Adjacency.follow Search.relax
  cases weight : q.weight e with
  | none => exact ⟨s, rfl, tracks, back⟩
  | some w =>
    have known := (serves.linked.ends edge).2
    have settled_iff := tracks.settled target
    simp only [edge, edge', Option.bind_eq_bind, Option.bind_some]
    by_cases done : target ∈ labels.settled
    · rw [Adjacency.settled?_eq_true_iff.mpr (settled_iff.mpr done), if_pos (by simpa using done)]
      exact ⟨s, rfl, tracks, back⟩
    · rw [Adjacency.settled?_eq_false_iff.mpr ⟨mt settled_iff.mp done, known⟩,
        if_neg (by simpa using done)]
      refine ⟨_, rfl, tracks.offer serves labelled known edge ?_ back fun i mem f found => ?_⟩
      · exact now ▸ reached.extend edge' weight (now ▸ done)
      · rw [now]
        rcases target_of_mem_trail serves.shown reached mem found with same | old <;> simp [*]

/-- Following all edges out of the node that was just settled. -/
theorem Tracks.followAll (tracks : Tracks a q settled s labels) (serves : a.Serves q)
    (labelled : Search.Labelled q labels)
    (reached : Search.Reached q old n here) (now : labels.settled = old.insert n)
    (back : Remembers a s.via here.trail) {edges : List EdgeId}
    (out : ∀ e ∈ edges, e ∈ a.outEdges n) :
    ∃ s', edges.foldlM (a.follow q.weight settled here.cost) s = some s' ∧
      Tracks a q settled s' (edges.foldl (Search.relax q here) labels) := by
  induction edges generalizing s labels with
  | nil => exact ⟨s, rfl, tracks⟩
  | cons e rest ih =>
    obtain ⟨first, later⟩ := List.forall_mem_cons.mp out
    obtain ⟨s', followed, tracks', back'⟩ :=
      tracks.follow serves labelled reached now back first
    have out' : e ∈ q.graph.outEdges n := by rwa [serves.shown, serves.linked.outEdges_graph]
    have now' := (Search.settled_relax q here labels e).trans now
    rw [List.foldlM_cons, followed, List.foldl_cons]
    exact ih tracks' (labelled.relax reached now out') now' back' later

/-- The turn of a settled node is passed over. -/
theorem Tracks.pass (tracks : Tracks a q settled s labels) (labelled : Search.Labelled q labels)
    (first : s.queue = turn :: rest) (done : turn.node ∈ labels.settled) :
    Tracks a q settled { s with queue := rest } labels := by
  have queued := tracks.queued
  have known := tracks.known
  rw [first] at queued known
  refine ⟨tracks.settled, tracks.distance, tracks.remembers, (List.forall_mem_cons.mp known).2,
    queued.behind (fun found => ⟨fun same => ?_, found⟩) ?_ fun _ found => found⟩
  · exact (labelled found).outside (same ▸ done)
  · rintro n (old | rfl)
    · exact old
    · exact done

theorem Tracks.nearest (tracks : Tracks a q settled s labels) (orders : q.OrdersCosts)
    (first : s.queue = turn :: rest) (fresh : turn.node ∉ labels.settled) :
    ∃ l : Label W, turn.cost = l.cost ∧
      Search.nearest labels.frontier.toList = some (turn.node, l) := by
  have queued := tracks.queued
  rw [first] at queued
  exact queued.nearest orders fresh

/-- Taking the turn of the nearest label settles its node. -/
theorem Tracks.take (tracks : Tracks a q settled s labels) (first : s.queue = turn :: rest) :
    Tracks a q (settled.insert turn.node) { s with queue := rest }
      ⟨labels.settled.insert turn.node, labels.frontier.erase turn.node⟩ := by
  have queued := tracks.queued
  have known := tracks.known
  rw [first] at queued known
  have erased : ∀ {n : NodeId} {l : Label W}, (labels.frontier.erase turn.node)[n]? = some l ↔
      n ≠ turn.node ∧ labels.frontier[n]? = some l := by
    intro n l
    by_cases same : turn.node = n
    · simp [same]
    · simp [Std.ExtTreeMap.getElem?_erase, same, Ne.symm same]
  refine ⟨fun n => ?_, fun n fresh => ?_, fun found => tracks.remembers (erased.mp found).2,
    (List.forall_mem_cons.mp known).2, queued.behind erased.mp (fun n => ?_) fun other found =>
      erased.mpr ⟨other, found⟩⟩
  · simp [tracks.settled]
  · have apart : turn.node ≠ n ∧ n ∉ labels.settled := by simpa using fresh
    simp [Std.ExtTreeMap.getElem?_erase, apart.1, tracks.distance n apart.2]
  · rintro (old | rfl) <;> simp [*]

end settling

/-! ### The whole search -/

/-- Where all ways are alike, the search by labels is always sound. -/
abbrev Alike : Path → Path → Prop := fun _ _ => True

/-- What the search over the tables has found of the answer of the search by labels. -/
def Finds (a : Adjacency) (q : PathQuery W) (s : Sweep W) : Option (Label W) → Prop
  | none => s.distance[q.target]? = none
  | some l => s.distance[q.target]? = some l.cost ∧ Remembers a s.via l.trail ∧
      ∃ old, Search.Reached q old q.target l

/-- The search over the tables misses no look-up and ends as the search by labels does. -/
theorem Tracks.sweep (tracks : Tracks a q settled s labels) (serves : a.Serves q)
    (source : q.source ∈ q.graph.nodes) (target : q.target ∈ q.graph.nodes)
    (sound : Search.Sound q Alike labels) (unsettled : q.target ∉ labels.settled) {limit : Nat}
    (enough : q.graph.nodes.size ≤ labels.settled.size + limit) :
    ∃ s', a.sweep q.weight q.target settled s = some s' ∧
      Finds a q s' (Search.run q limit labels) := by
  induction settled, s using Adjacency.sweep.induct a q.target generalizing labels limit with
  | case1 settled s empty =>
    have no_label := (empty ▸ tracks.queued : Queued q labels []).no_label
    refine ⟨s, Adjacency.sweep_nil empty, ?_⟩
    rw [Search.run_eq_none no_label, Finds, tracks.distance _ unsettled, no_label, Option.map_none]
  | case2 settled s turn rest first missing =>
    have known := tracks.known turn (by simp [first])
    exact absurd known (Adjacency.settled?_eq_none_iff.mp missing).2
  | case3 settled s turn rest first done ih =>
    have done' := (tracks.settled _).mp (Adjacency.settled?_eq_true_iff.mp done)
    rw [Adjacency.sweep_pass first done]
    exact ih (tracks.pass sound.labelled first done') sound unsettled enough
  | case4 settled s turn rest first fresh arrived =>
    have fresh' := mt (tracks.settled _).mpr (Adjacency.settled?_eq_false_iff.mp fresh).1
    obtain ⟨l, -, nearest⟩ := tracks.nearest serves.orders first fresh'
    rw [arrived] at nearest
    have found := Search.frontier_nearest nearest
    have fewer := sound.settled_lt target unsettled
    obtain ⟨limit, rfl⟩ : ∃ more, limit = more + 1 := ⟨limit - 1, by omega⟩
    refine ⟨s, Adjacency.sweep_arrived first fresh arrived, ?_⟩
    rw [Search.run, nearest]
    simp only [if_true]
    refine ⟨?_, tracks.remembers found, labels.settled, sound.labelled found⟩
    rw [tracks.distance _ unsettled, found, Option.map_some]
  | case5 settled s turn rest first fresh onward ih =>
    have fresh' := mt (tracks.settled _).mpr (Adjacency.settled?_eq_false_iff.mp fresh).1
    obtain ⟨here, cost, nearest⟩ := tracks.nearest serves.orders first fresh'
    have found := Search.frontier_nearest nearest
    have fewer := sound.settled_lt target unsettled
    obtain ⟨limit, rfl⟩ : ∃ more, limit = more + 1 := ⟨limit - 1, by omega⟩
    obtain ⟨sound', settled'⟩ := sound.settle q.respects_alike source nearest
    obtain ⟨s', followed, tracks'⟩ := (tracks.take first).followAll serves
      (Search.Labelled.erase sound.labelled turn.node) (sound.labelled found) rfl
      (tracks.remembers found) fun e (out : e ∈ a.outEdges turn.node) => out
    rw [← serves.linked.outEdges_graph, ← serves.shown, ← Search.settle] at tracks'
    rw [Adjacency.sweep_settle first fresh onward, cost, followed, Option.bind_some, Search.run,
      nearest]
    simp only [onward, if_false]
    refine ih s' tracks' sound' ?_ ?_
    · rw [settled']
      simp [unsettled, onward]
    · rw [settled', Std.ExtTreeSet.size_insert, if_neg (by simpa using fresh')]
      omega

/-- Before the first turn. -/
theorem tracks_start (known : q.source ∈ a.stars) :
    Tracks a q ∅ (start q.source) (Search.start q.source) := by
  have free : q.Incurs 0 := ⟨[], ⟨q.source, q.source, rfl, by simp⟩, PathQuery.costs_nil⟩
  have label : ∀ {n : NodeId} {l : Label W}, (Search.start q.source).frontier[n]? = some l ↔
      n = q.source ∧ l = ⟨0, []⟩ := by
    intro n l
    by_cases same : q.source = n
    · simp [Search.start, same, eq_comm]
    · simp [Search.start, same, Ne.symm same]
  refine ⟨by simp [Search.start], fun n _ => ?_, fun found => ?_, by simpa [start] using known, ?_⟩
  · by_cases same : q.source = n
    · simp [start, Search.start, same]
    · simp [start, Search.start, same]
  · rw [(label.mp found).2]
    exact fun _ mem => absurd mem List.not_mem_nil
  · refine ⟨fun found => ?_, ?_, by simpa [start] using free, List.pairwise_singleton _ _⟩
    · obtain ⟨rfl, rfl⟩ := label.mp found
      exact List.mem_cons_self
    · refine List.forall_mem_singleton.mpr (.inr ⟨⟨0, []⟩, ?_, .inl rfl⟩)
      exact label.mpr ⟨rfl, rfl⟩

omit [Weight W] in
/-- Walking back from a node finds the trail of its label. -/
theorem Remembers.walkBack {via : Std.HashMap NodeId EdgeId} {trail : List EdgeId}
    (remembers : Remembers a via trail) (shown : q.graph = a.graph)
    (leads : q.graph.Leads q.source trail.reverse n)
    (distinct : (q.source :: q.graph.stops trail.reverse).Nodup) {limit : Nat}
    (enough : trail.length < limit) (onward : Path) :
    a.walkBack via q.source limit n onward = some (trail.reverse ++ onward) := by
  obtain ⟨limit, rfl⟩ := Nat.exists_eq_add_one_of_ne_zero (Nat.ne_zero_of_lt enough)
  induction trail generalizing n limit onward with
  | nil =>
    obtain rfl : q.source = n := leads
    simp [Adjacency.walkBack]
  | cons e rest ih =>
    obtain ⟨known, remembers⟩ := List.forall_mem_cons.mp remembers
    rw [List.reverse_cons] at leads distinct
    obtain ⟨m, leads, last⟩ := Graph.leads_append.mp leads
    have edge := Graph.leads_singleton.mp last
    rw [Graph.stops_append, Graph.stops_cons edge, Graph.stops_nil, ← List.cons_append] at distinct
    obtain ⟨distinct, -, apart⟩ := List.nodup_append.mp distinct
    have away : n ≠ q.source := (apart q.source List.mem_cons_self n List.mem_cons_self).symm
    rw [shown, a.edge?_graph] at edge
    have shorter : rest.length < limit := Nat.lt_of_succ_lt_succ enough
    obtain ⟨limit, rfl⟩ := Nat.exists_eq_add_one_of_ne_zero (Nat.ne_zero_of_lt shorter)
    rw [Adjacency.walkBack, if_neg away, known _ edge]
    simp only [edge, Option.bind_eq_bind, Option.bind_some]
    rw [ih remembers leads distinct (e :: onward) limit shorter, List.reverse_cons,
      List.append_assoc, List.singleton_append]

omit [Weight W] in
/-- Each edge of a trail stands in the table, under the node that it ends at. -/
theorem Remembers.length_le {via : Std.HashMap NodeId EdgeId} {trail : List EdgeId}
    (remembers : Remembers a via trail) (shown : q.graph = a.graph)
    (leads : q.graph.Leads q.source trail.reverse n)
    (distinct : (q.source :: q.graph.stops trail.reverse).Nodup) : trail.length ≤ via.size := by
  have subset : q.graph.stops trail.reverse ⊆ via.keys := by
    intro m stop
    obtain ⟨i, mem, target⟩ := List.mem_filterMap.mp stop
    obtain ⟨edge, found, rfl⟩ := Option.map_eq_some_iff.mp target
    rw [shown, a.edge?_graph] at found
    have known := remembers i (List.mem_reverse.mp mem) edge found
    rw [Std.HashMap.mem_keys, Std.HashMap.mem_iff_isSome_getElem?, known, Option.isSome_some]
  have shorter := (List.subperm_of_subset (List.nodup_cons.mp distinct).2 subset).length_le
  rwa [leads.length_stops, List.length_reverse, Std.HashMap.length_keys] at shorter

/-- What the search over the tables has found is the answer of the search by labels. -/
theorem Finds.wayTo? {found : Option (Label W)} (finds : Finds a q s found)
    (shown : q.graph = a.graph) :
    a.wayTo? q.source q.target s = found.map fun l => (l.cost, l.trail.reverse) := by
  unfold Adjacency.wayTo?
  cases found with
  | none =>
    rw [show s.distance[q.target]? = none from finds]
    rfl
  | some l =>
    obtain ⟨distance, remembers, old, reached⟩ := finds
    have short := Nat.lt_succ_of_le (remembers.length_le shown reached.leads reached.distinct)
    rw [distance, remembers.walkBack shown reached.leads reached.distinct short, List.append_nil]
    rfl

end Sweep

namespace Adjacency
variable {a : Adjacency}

/-- Over tables that agree, the search with a queue misses no look-up, and it answers as the search
by labels does on the graph that they describe. -/
theorem Linked.shortest?_eq (linked : a.Linked) (weight : EdgeId → Option W)
    (source target : NodeId) (orders : (a.query weight source target).OrdersCosts) :
    a.shortest? weight source target = (a.query weight source target).shortest? := by
  have known : ∀ n, a.stars.contains n ↔ n ∈ a.graph.nodes := fun n => by
    rw [linked.mem_nodes_graph, mem_nodes, Std.HashMap.contains_iff_mem]
  unfold shortest? PathQuery.shortest?
  simp only [known]
  by_cases askable : source = target ∨ source ∉ a.graph.nodes ∨ target ∉ a.graph.nodes
  · exact (if_pos askable).trans (if_pos askable).symm
  · refine (if_neg askable).trans (Eq.trans ?_ (if_neg askable).symm)
    simp only [not_or, not_not] at askable
    obtain ⟨-, source_known, target_known⟩ := askable
    have start : Sweep.Tracks a (a.query weight source target) ∅ (.start source) (.start source) :=
      Sweep.tracks_start (Std.HashMap.contains_iff_mem.mp ((known source).mpr source_known))
    obtain ⟨s, swept, finds⟩ := start.sweep ⟨linked, rfl, orders⟩ source_known target_known
      (Search.sound_start _ Sweep.Alike) (by simp [Search.start]) (Nat.le_add_left _ _)
    rw [show a.sweep weight target ∅ (.start source) = some s from swept]
    exact finds.wayTo? rfl

end Adjacency
end FlowAdmission
