import FlowAdmission.Proofs.Manager.Linked
import FlowAdmission.Rerouting.Search

/-!
# What making room changes

A search for room moves some flows and leaves everything else as it was (`Store.Rerouted`). Each
move carries one flow from its old request to a new one (`move_true`), and a failed move changes
nothing (`move_false`). By induction over the candidates, the flows in the record are the moved
ones, and the blocked request is the only thing that may be added (`tryEach_searched`). A search
that ends in a refusal has moved nothing, because every candidate is refused for the same reason
(`tryEach_error`).
-/
namespace FlowAdmission
variable {K : Type}

namespace Store

/-- Flows that are not in the list are as they were, with their requests. A listed flow differs in
its request alone: the same request on a new path, in place of the old one, which is gone. -/
structure Rearranged (moved : List FlowId) (s s' : Store K) : Prop where
  kept : ∀ {id f}, id ∉ moved → s.flow? id = some f → s'.flow? id = some f ∧
    ∀ {r}, f.request = some r → s'.request? r = s.request? r
  moved : ∀ {id}, id ∈ moved → ∃ f old b new b', s.flow? id = some f ∧ f.request = some old ∧
    s.request? old = some b ∧ s'.flow? id = some { f with request := some new } ∧
    s'.request? new = some b' ∧ b'.request = b.request ∧ b'.path.isSome ∧ b'.flow = some id ∧
    b'.replaces = some old ∧ s'.request? old = none

/-- The listed flows are rearranged; no flow is gained, and tenants and machines stay. -/
structure Rerouted (moved : List FlowId) (s s' : Store K) : Prop
    extends Rearranged moved s s' where
  tenants : ∀ i, s'.tenant? i = s.tenant? i
  vms : ∀ i, s'.vm? i = s.vm? i
  flows : ∀ id, s.flow? id = none → s'.flow? id = none

/-- How a search has brought the store from its start to `s`, having moved the listed flows. -/
structure Searched (start : Store K) (moved : List FlowId) (s : Store K) : Prop where
  rerouted : Rerouted moved start s
  follows : Follows start s
  numbered : start.Numbered
  linked : s.Linked

namespace Searched
variable {start s s' : Store K} {moved : List FlowId}

theorem begin (linked : s.Linked) : Searched s [] s where
  rerouted := ⟨⟨fun _ live => ⟨live, fun _ => rfl⟩, nofun⟩, fun _ => rfl, fun _ => rfl,
    fun _ gone => gone⟩
  follows := .refl linked.numbered linked.mirrored
  numbered := linked.numbered
  linked := linked

theorem same (searched : Searched start moved s) (follows : Follows s s')
    (same : SameRecords s s') : Searched start moved s' := by
  obtain ⟨⟨⟨kept, moved⟩, tenants, vms, flows⟩, before, numbered, linked⟩ := searched
  refine ⟨⟨⟨?_, ?_⟩, ?_, ?_, ?_⟩, before.trans follows, numbered,
    linked.of_sameRecords follows same⟩
  · intro id f outside live
    obtain ⟨still, requests⟩ := kept outside live
    exact ⟨(same.records .flow id).trans still,
      fun requested => (same.records .request _).trans (requests requested)⟩
  · intro id inside
    obtain ⟨f, old, b, new, b', live, requested, held, now, held', request, path, points, replaces,
      gone⟩ := moved inside
    exact ⟨f, old, b, new, b', live, requested, held, (same.records .flow id).trans now,
      (same.records .request new).trans held', request, path, points, replaces,
      (same.records .request old).trans gone⟩
  · exact fun i => (same.records .tenant i).trans (tenants i)
  · exact fun i => (same.records .vm i).trans (vms i)
  · exact fun i missing => (same.records .flow i).trans (flows i missing)

/-- One more flow is moved. -/
theorem move {flow : FlowId} {f : Flow K} {old new : RequestId} {b : Booking K} {path : Path}
    (searched : Searched start moved s) (follows : Follows s s')
    (moves : Moved flow f old new b path s s') (unmoved : flow ∉ moved) :
    Searched start (moved ++ [flow]) s' := by
  obtain ⟨⟨⟨kept, earlier⟩, tenants, vms, flows⟩, before, numbered, linked⟩ := searched
  refine ⟨⟨⟨?_, ?_⟩, ?_, ?_, ?_⟩, before.trans follows, numbered, linked.moved follows moves⟩
  · intro id g outside live
    obtain ⟨still, requests⟩ := kept (fun inside => outside (List.mem_append_left _ inside)) live
    have other : flow ≠ id := by
      intro same
      subst same
      exact outside (List.mem_append_right _ (List.mem_singleton_self flow))
    refine ⟨?_, fun requested =>
      (moves.request?_of_other linked other still requested).trans (requests requested)⟩
    rw [moves.flows, if_neg other, still]
  · intro id inside
    rcases List.mem_append.mp inside with old_one | this_one
    · obtain ⟨g, o, c, n, c', live, requested, held, now, held', request, routed, points, replaces,
        gone⟩ := earlier old_one
      have other : flow ≠ id := by
        intro same
        subst same
        exact unmoved old_one
      refine ⟨g, o, c, n, c', live, requested, held, ?_, ?_, request, routed, points, replaces, ?_⟩
      · rw [moves.flows, if_neg other, now]
      · exact (moves.request?_of_other linked other now rfl).trans held'
      · have not_new : new ≠ o := by
          intro same
          subst same
          have lower := numbered.lt_next (k := .request) held
          have next_le := before.next_le .request
          have next : new.index = (s.roster .request).next := moves.next
          omega
        rw [moves.requests, if_neg not_new, gone]
        split <;> rfl
    · obtain rfl := List.mem_singleton.mp this_one
      cases found : start.flow? id with
      | none =>
        have live := moves.live
        rw [flows id found] at live
        cases live
      | some g =>
        obtain ⟨still, requests⟩ := kept unmoved found
        have same : some g = some f := still.symm.trans moves.live
        cases same
        have held := (requests moves.requested).symm.trans moves.held
        have apart : old ≠ new := (moves.ne_new linked moves.held).symm
        refine ⟨f, old, b, new,
          { request := b.request, path := some path, flow := some id, replaces := some old },
          rfl, moves.requested, held, ?_, ?_, rfl, rfl, rfl, rfl, ?_⟩
        · rw [moves.flows, if_pos rfl]
        · rw [moves.requests, if_neg apart, if_pos rfl]
        · rw [moves.requests, if_pos rfl]
  · exact fun i => (moves.tenants i).trans (tenants i)
  · exact fun i => (moves.vms i).trans (vms i)
  · intro id missing
    have absent := flows id missing
    have other : flow ≠ id := by
      intro same
      subst same
      rw [moves.live] at absent
      cases absent
    rw [moves.flows, if_neg other, absent]

end Searched
end Store

namespace Rerouting
open Store Transaction
variable {env : Setting K} {flow : FlowId} {blocked : Request K}

/-- The refusal of a path index that does not hold a pair. -/
def Unindexed (e : Error) : Prop :=
  ∃ source destination level, e = .unindexed source destination level

theorem error_of_map_eq {α β : Type} {f : α → β} {answer : Except Error α} {e : Error}
    (refused : answer.map f = .error e) : answer = .error e := by
  cases answer with
  | error => simpa [Except.map] using refused
  | ok => cases refused

theorem firstPaths_error {index : PathIndex} {source destination : NodeId} {levels : Nat}
    {e : Error} (refused : index.firstPaths source destination levels = .error e) :
    Unindexed e := by
  unfold PathIndex.firstPaths at refused
  split at refused
  · cases refused
    exact ⟨source, destination, 0, rfl⟩
  · cases refused

theorem paths_error {region : Region} {index : PathIndex} {e : Error}
    (refused : region.paths index blocked = .error e) : Unindexed e := by
  cases region with
  | ownPathOnly => cases refused
  | shortestPath => exact firstPaths_error (error_of_map_eq refused)
  | allShortestPaths | allTwoShortestPaths => exact firstPaths_error refused

theorem select_error {s : Store K} {selection : Selection} {e : Error}
    (refused : select env.network s env.index blocked selection = .error e) : Unindexed e := by
  cases selection with
  | allFlows => cases refused
  | oneShortestPath | allShortestPaths | allTwoShortestPaths =>
    exact firstPaths_error (error_of_map_eq refused)

theorem rank_error [Quantity K] {s : Store K} {candidates : FlowSet} {order : Order} {e : Error}
    (refused : rank env.network s env.index blocked candidates order = .error e) :
    Unindexed e := by
  cases order with
  | commonEdges => exact firstPaths_error (error_of_map_eq refused)
  | unsorted | rate | burst | delay => cases refused

theorem tryOrder_error [Quantity K] {s : Store K} {e : Error}
    (refused : tryOrder env s blocked = .error e) : Unindexed e := by
  unfold tryOrder at refused
  cases selected : select env.network s env.index blocked env.configuration.selection with
  | error e' =>
    simp only [selected, bind, Except.bind, Except.error.injEq] at refused
    rw [← refused]
    exact select_error selected
  | ok candidates =>
    cases order : rank env.network s env.index blocked candidates env.configuration.order with
    | error e' =>
      simp only [selected, order, bind, Except.bind, Except.error.injEq] at refused
      rw [← refused]
      exact rank_error order
    | ok flows => simp [selected, order, bind, Except.bind, pure, Except.pure] at refused

/-- What is to be avoided can be told for every candidate or for none. -/
theorem avoidedEdges_eq_error {e : Error} {oldPath : Path} :
    avoidedEdges env.network env.index env.configuration oldPath blocked = .error e ↔
      env.configuration.region.paths env.index blocked = .error e := by
  unfold avoidedEdges
  cases env.configuration.region.paths env.index blocked <;> simp [Except.map]

variable {R C : Type} [Quantity K] [CostModel C K] [Router R C K] {x x' : Embedder R C K}

theorem move_error {e : Error} (answered : move env x flow blocked = (.error e, x')) :
    env.configuration.region.paths env.index blocked = .error e := by
  unfold move at answered
  split at answered
  · cases answered
  · split at answered
    · rename_i refused
      cases answered
      exact avoidedEdges_eq_error.mp refused
    · split at answered <;> cases answered

/-- Where no candidate can be told what to avoid, nothing is moved. -/
theorem move_of_error (x : Embedder R C K) (flow : FlowId) {e : Error}
    (unknown : env.configuration.region.paths env.index blocked = .error e) :
    (move env x flow blocked).2 = x ∧ (move env x flow blocked).1 ≠ .ok true := by
  unfold move
  split
  · exact ⟨rfl, nofun⟩
  · rw [avoidedEdges_eq_error.mpr unknown]
    exact ⟨rfl, nofun⟩

theorem move_false (linked : x.store.Linked)
    (answered : move env x flow blocked = (.ok false, x')) :
    Follows x.store x'.store ∧ SameRecords x.store x'.store := by
  unfold move at answered
  split at answered
  · cases answered
    exact ⟨.refl linked.numbered linked.mirrored, .refl _⟩
  · split at answered
    · cases answered
    · split at answered
      · rename_i embedded
        cases answered
        obtain ⟨follows, same, _⟩ :=
          Embedder.embed_none linked.numbered linked.mirrored embedded
        exact ⟨follows, same⟩
      · cases answered

/-- A flow that moves gets its new path first and gives the old one back then. -/
theorem move_true (linked : x.store.Linked)
    (answered : move env x flow blocked = (.ok true, x')) :
    Follows x.store x'.store ∧
      ∃ f old new b path, Moved flow f old new b path x.store x'.store := by
  unfold move at answered
  split at answered
  · cases answered
  · rename_i old request oldPath routed
    split at answered
    · cases answered
    · split at answered
      · cases answered
      · rename_i new y embedded
        cases answered
        obtain ⟨f, b, live, requested, held, rfl, _⟩ := routed?_eq_some routed
        obtain ⟨follows, path, gains⟩ :=
          Embedder.embed_some linked.numbered linked.mirrored embedded
        have steps := steps_relink flow old new y.store.begin
        have relinked := steps.follows_commit follows.numbered follows.mirrored
        have apart : old ≠ new := by
          intro same
          subst same
          have newer := gains.fresh linked.numbered held
          omega
        refine ⟨follows.trans relinked, f, old, new, b, path, live, requested, held, gains.next,
          fun i => ?_, fun i => ?_, fun i => ?_, fun i => ?_⟩
        · refine (get?_unlocked _ _).trans ((flow?_relink _ flow i).trans ?_)
          have same : y.store.begin.store.flow? i = x.store.flow? i := gains.others .flow i nofun
          rw [same]
          by_cases its_own : flow = i
          · rw [if_pos its_own, if_pos its_own, ← its_own, live]
            rfl
          · rw [if_neg its_own, if_neg its_own]
        · refine (get?_unlocked _ _).trans ((request?_relink _ flow apart i).trans ?_)
          have same : y.store.begin.store.request? i = _ := gains.requests i
          rw [same]
          by_cases its_new : new = i
          · rw [if_pos its_new, if_pos its_new, if_pos its_new]
            rfl
          · rw [if_neg its_new, if_neg its_new, if_neg its_new]
        · refine (get?_unlocked _ _).trans ((get?_relink_of_ne _ flow i nofun nofun).trans ?_)
          exact gains.others .tenant i nofun
        · refine (get?_unlocked _ _).trans ((get?_relink_of_ne _ flow i nofun nofun).trans ?_)
          exact gains.others .vm i nofun

/-- A search that refuses leaves everything as it found it. -/
theorem tryEach_error {flows : List FlowId} {record : Record} {e : Error}
    (answered : tryEach env blocked flows record x = (.error e, x')) :
    x' = x ∧ env.configuration.region.paths env.index blocked = .error e := by
  cases known : env.configuration.region.paths env.index blocked with
  | error e' =>
    induction flows generalizing record with
    | nil => cases answered
    | cons flow rest ih =>
      obtain ⟨still, stuck⟩ := move_of_error x flow known
      unfold tryEach at answered
      dsimp only at answered
      split at answered <;> rename_i moved <;> rw [moved] at still stuck
      · have reason := move_error moved
        cases answered
        exact ⟨still, known.symm.trans reason⟩
      · obtain rfl : _ = x := still
        exact ih answered
      · exact absurd rfl stuck
  | ok paths =>
    exfalso
    induction flows generalizing record x with
    | nil => cases answered
    | cons flow rest ih =>
      unfold tryEach at answered
      dsimp only at answered
      split at answered
      · rename_i moved
        have unknown := move_error moved
        rw [known] at unknown
        cases unknown
      · exact ih answered
      · split at answered
        · cases answered
        · exact ih answered

/-- The flows that wait for their turn are still none of the moved ones. -/
theorem untried_append {rest moved : List FlowId} (first : flow ∉ rest)
    (untried : ∀ other ∈ rest, other ∉ moved) : ∀ other ∈ rest, other ∉ moved ++ [flow] := by
  intro other waiting listed
  rcases List.mem_append.mp listed with earlier | this_one
  · exact untried other waiting earlier
  · obtain rfl := List.mem_singleton.mp this_one
    exact first waiting

/-- After a search the moved flows are those in its record. When room was made the blocked request
has been added to that. -/
theorem tryEach_searched {start : Store K} {flows : List FlowId} {record : Record}
    {outcome : Outcome} (searched : Searched start record.reconfigured x.store)
    (distinct : flows.Nodup) (untried : ∀ flow ∈ flows, flow ∉ record.reconfigured)
    (answered : tryEach env blocked flows record x = (.ok outcome, x')) :
    ∃ s, Searched start outcome.record.reconfigured s ∧
      match outcome.request with
      | none => x'.store = s
      | some id => Follows s x'.store ∧
        ∃ path, Gains s x'.store id { request := blocked, path := some path } := by
  induction flows generalizing record x with
  | nil =>
    cases answered
    exact ⟨_, searched, rfl⟩
  | cons flow rest ih =>
    obtain ⟨first, distinct⟩ := List.nodup_cons.mp distinct
    obtain ⟨unmoved, untried⟩ := List.forall_mem_cons.mp untried
    unfold tryEach at answered
    dsimp only at answered
    split at answered
    · cases answered
    · rename_i y stayed
      obtain ⟨follows, same⟩ := move_false searched.linked stayed
      refine ih ?_ distinct ?_ answered
      · exact searched.same follows same
      · exact untried
    · rename_i y moved
      obtain ⟨follows, f, old, new, b, path, moves⟩ := move_true searched.linked moved
      have searched := searched.move follows moves unmoved
      have untried := untried_append first untried
      split at answered
      · rename_i id z embedded
        cases answered
        exact ⟨y.store, searched,
          Embedder.embed_some searched.linked.numbered searched.linked.mirrored embedded⟩
      · rename_i z refused
        obtain ⟨follows, same, _⟩ :=
          Embedder.embed_none searched.linked.numbered searched.linked.mirrored refused
        refine ih ?_ distinct ?_ answered
        · exact searched.same follows same
        · exact untried

omit [CostModel C K] [Router R C K] in
/-- Ranking leaves out no candidate and adds none. -/
theorem rank_perm {net : Network K} {s : Store K} {index : PathIndex} {candidates : FlowSet}
    {order : Order} {ranked : List FlowId}
    (answered : rank net s index blocked candidates order = .ok ranked) :
    ranked.Perm candidates.toList := by
  unfold rank at answered
  cases order with
  | unsorted =>
    cases answered
    exact .refl _
  | commonEdges =>
    cases known : index.firstPaths blocked.source blocked.destination 1 with
    | error e =>
      rw [known] at answered
      cases answered
    | ok paths =>
      rw [known] at answered
      cases answered
      exact sortStable_perm _ _
  | rate | burst | delay =>
    cases answered
    exact sortStable_perm _ _

omit [CostModel C K] [Router R C K] in
/-- The flows that may be tried are the first ones of the ranked candidates. -/
theorem tryOrder_ok {s : Store K} {flows : List FlowId}
    (answered : tryOrder env s blocked = .ok flows) :
    ∃ candidates ranked,
      select env.network s env.index blocked env.configuration.selection = .ok candidates ∧
      rank env.network s env.index blocked candidates env.configuration.order = .ok ranked ∧
      flows = ranked.take (env.configuration.maxAttempts candidates.size) := by
  unfold tryOrder at answered
  cases selected : select env.network s env.index blocked env.configuration.selection with
  | error e => simp [selected, bind, Except.bind] at answered
  | ok candidates =>
    cases order : rank env.network s env.index blocked candidates env.configuration.order with
    | error e => simp [selected, order, bind, Except.bind] at answered
    | ok ranked =>
      simp only [selected, order, bind, Except.bind, pure, Except.pure, Except.ok.injEq]
        at answered
      exact ⟨candidates, ranked, rfl, order, answered.symm⟩

omit [CostModel C K] [Router R C K] in
/-- No flow is tried twice. -/
theorem nodup_tryOrder {s : Store K} {flows : List FlowId}
    (answered : tryOrder env s blocked = .ok flows) : flows.Nodup := by
  obtain ⟨candidates, ranked, _, ordered, rfl⟩ := tryOrder_ok answered
  have distinct : candidates.toList.Nodup := nodup_toList candidates
  exact ((rank_perm ordered).nodup_iff.mpr distinct).sublist (List.take_sublist _ _)

/-- Making room changes no more than the moved flows and the blocked request. -/
theorem makeRoom_searched {start : Store K} {outcome : Outcome}
    (searched : Searched start [] x.store)
    (answered : makeRoom env x blocked = (.ok outcome, x')) :
    ∃ s, Searched start outcome.record.reconfigured s ∧
      match outcome.request with
      | none => x'.store = s
      | some id => Follows s x'.store ∧
        ∃ path, Gains s x'.store id { request := blocked, path := some path } := by
  unfold makeRoom at answered
  split at answered
  · cases answered
  · rename_i flows ordered
    refine tryEach_searched ?_ (nodup_tryOrder ordered) ?_ answered
    · exact searched
    · exact fun _ _ => List.not_mem_nil

/-- When no room can be made because a pair of nodes is not indexed, nothing has changed. -/
theorem makeRoom_error {e : Error} (answered : makeRoom env x blocked = (.error e, x')) :
    x' = x ∧ Unindexed e := by
  unfold makeRoom at answered
  split at answered
  · rename_i refused
    cases answered
    exact ⟨rfl, tryOrder_error refused⟩
  · obtain ⟨still, refused⟩ := tryEach_error answered
    exact ⟨still, paths_error refused⟩

end Rerouting
end FlowAdmission
