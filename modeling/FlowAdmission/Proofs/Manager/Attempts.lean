import FlowAdmission.Proofs.Manager.Guarantees
import FlowAdmission.Proofs.Manager.Index
import FlowAdmission.Proofs.Routing.Optimal

/-!
# What the record of a search tells

Candidates are chosen and ranked once, before the search, and the search changes the store under
its own feet. Its record is right all the same (`Rerouting.Recounts`): it tries the ranked
candidates from the first one on, each once, and moves those whose request has changed in the end.
A candidate has a path when it is chosen and keeps it until its turn, so it is passed over only
when its request cannot be embedded on another path.

With the ranked router and token buckets the answer is right, too (`Manager.stuck_of_infeasible`).
Every move is followed by a new attempt at the blocked request, and what is done after the last
move leaves the reservations as they were. `Manager.recounts_createFlow` says both of a call that
creates a flow.
-/
namespace FlowAdmission
variable {K : Type}

/-- The request that a flow is routed by. -/
def Store.requestOf? (s : Store K) (flow : FlowId) : Option RequestId :=
  (s.flow? flow).bind (·.request)

namespace Store
variable {start s : Store K} {moved : List FlowId} {flow : FlowId}

/-- The moved flows are those that are routed by another request than at the start. -/
theorem Searched.mem_moved_iff (searched : Searched start moved s) :
    flow ∈ moved ↔ s.requestOf? flow ≠ start.requestOf? flow := by
  obtain ⟨⟨⟨kept, earlier⟩, _, _, flows⟩, _, _, _⟩ := searched
  constructor
  · intro inside
    obtain ⟨f, old, b, new, b', live, requested, _, now, held', _, _, _, _, gone⟩ := earlier inside
    have apart : new ≠ old := by
      rintro rfl
      rw [gone] at held'
      cases held'
    simpa [requestOf?, live, now, requested] using apart
  · intro changed
    by_contra outside
    refine changed ?_
    cases live : start.flow? flow with
    | none => rw [requestOf?, requestOf?, flows flow live, live]
    | some f => rw [requestOf?, requestOf?, (kept outside live).1, live]

/-- A flow that was routed at the start and has not been moved is routed still. -/
theorem Searched.routed (searched : Searched start moved s) (unmoved : flow ∉ moved)
    (routed : (Rerouting.routed? start flow).isSome) : (Rerouting.routed? s flow).isSome := by
  obtain ⟨⟨id, request, path⟩, there⟩ := Option.isSome_iff_exists.mp routed
  obtain ⟨f, b, live, requested, held, _, has_path⟩ := Rerouting.routed?_eq_some there
  obtain ⟨still, same⟩ := searched.rerouted.kept unmoved live
  have held' := (same requested).trans held
  simp [Rerouting.routed?, still, requested, held', has_path]

end Store

namespace Rerouting
open Store
variable {env : Setting K} {blocked : Request K} {flow : FlowId}

/-- Two records, one after the other. -/
def Record.append (r later : Record) : Record :=
  ⟨r.attempts ++ later.attempts, r.reconfigured ++ later.reconfigured,
    r.successes ++ later.successes⟩

section candidates
variable {s : Store K}

/-- In a linked store the flows of some requests are those that are routed by one of them. -/
theorem mem_flowsOf (linked : s.Linked) {ids : List RequestId} :
    flow ∈ flowsOf s ids ↔
      ∃ id request path, routed? s flow = some (id, request, path) ∧ id ∈ ids := by
  simp only [flowsOf, Std.ExtTreeSet.mem_ofList, List.contains_iff_mem, List.mem_filterMap,
    Option.bind_eq_some_iff]
  constructor
  · rintro ⟨id, listed, b, held, points⟩
    obtain ⟨has_path, i, f, points', live, requested⟩ := linked.owned held
    rw [points] at points'
    cases points'
    obtain ⟨path, routed⟩ := Option.isSome_iff_exists.mp has_path
    exact ⟨id, b.request, path, by simp [routed?, live, requested, held, routed], listed⟩
  · rintro ⟨id, request, path, routed, listed⟩
    obtain ⟨f, b, live, requested, held, _, _⟩ := routed?_eq_some routed
    obtain ⟨b', held', points⟩ := linked.routed live requested
    exact ⟨id, listed, b', held', points⟩

/-- In a linked store the flow of every request is routed. -/
theorem routed_of_mem_flowsOf (linked : s.Linked) {ids : List RequestId}
    (mem : flow ∈ flowsOf s ids) : (routed? s flow).isSome := by
  obtain ⟨id, request, path, routed, _⟩ := (mem_flowsOf linked).mp mem
  exact Option.isSome_of_eq_some routed

/-- Candidates are always the flows of some requests. -/
theorem exists_flowsOf_of_select {selection : Selection} {candidates : FlowSet}
    (selected : select env.network s env.index blocked selection = .ok candidates) :
    ∃ ids, candidates = flowsOf s ids := by
  have of_paths : ∀ {answer : Except Error (List Path)} {f : List Path → List Path},
      answer.map (fun paths => crossing env.network s (f paths)) = .ok candidates →
        ∃ ids, candidates = flowsOf s ids := by
    intro answer f mapped
    cases answer with
    | error e => cases mapped
    | ok paths =>
      cases mapped
      exact ⟨_, rfl⟩
  cases selection with
  | allFlows =>
    cases selected
    exact ⟨_, rfl⟩
  | oneShortestPath => exact of_paths (f := List.take 1) selected
  | allShortestPaths | allTwoShortestPaths => exact of_paths (f := id) selected

/-- All flows that may be tried are routed. -/
theorem routed_of_mem_tryOrder [Quantity K] (linked : s.Linked) {flows : List FlowId}
    (ordered : tryOrder env s blocked = .ok flows) (mem : flow ∈ flows) :
    (routed? s flow).isSome := by
  obtain ⟨candidates, ranked, selected, order, rfl⟩ := tryOrder_ok ordered
  obtain ⟨ids, rfl⟩ := exists_flowsOf_of_select selected
  have listed := (rank_perm order).mem_iff.mp (List.mem_of_mem_take mem)
  exact routed_of_mem_flowsOf linked (Std.ExtTreeSet.mem_toList.mp listed)

end candidates

variable {R C : Type} [Quantity K] [CostModel C K] [Router R C K] {x x' : Embedder R C K}
  {flows : List FlowId}

/-- The state in which a flow gets its turn, in a search that starts in `x` and goes through the
flows in order. -/
inductive Turn (env : Setting K) (blocked : Request K) :
    List FlowId → Embedder R C K → FlowId → Embedder R C K → Prop
  | here {flow : FlowId} {rest : List FlowId} {x : Embedder R C K} :
      Turn env blocked (flow :: rest) x flow x
  | stayed {first flow : FlowId} {rest : List FlowId} {x x' y : Embedder R C K}
      (answered : move env x first blocked = (.ok false, x'))
      (later : Turn env blocked rest x' flow y) : Turn env blocked (first :: rest) x flow y
  | moved {first flow : FlowId} {rest : List FlowId} {x x' x'' y : Embedder R C K}
      (answered : move env x first blocked = (.ok true, x'))
      (refused : x'.embed env.network ∅ blocked none = (none, x''))
      (later : Turn env blocked rest x'' flow y) : Turn env blocked (first :: rest) x flow y

/-- When it was the flow's turn its request could not be embedded on another path. -/
def Stays (env : Setting K) (blocked : Request K) (flows : List FlowId) (x : Embedder R C K)
    (flow : FlowId) : Prop :=
  ∃ y old request path penalized, Turn env blocked flows x flow y ∧
    routed? y.store flow = some (old, request, path) ∧
    avoidedEdges env.network env.index env.configuration path blocked = .ok penalized ∧
    (y.embed env.network penalized request (some old)).1 = none

theorem stays_of_move {rest : List FlowId} (routed : (routed? x.store flow).isSome)
    (answered : move env x flow blocked = (.ok false, x')) :
    Stays env blocked (flow :: rest) x flow := by
  unfold move at answered
  split at answered
  · rename_i nowhere
    rw [nowhere] at routed
    cases routed
  · rename_i old request path there
    split at answered
    · cases answered
    · rename_i penalized avoids
      split at answered
      · rename_i embedded
        exact ⟨x, old, request, path, penalized, .here, there, avoids, congrArg Prod.fst embedded⟩
      · cases answered

/-- What a search that goes through the flows from `x` on enters in its record. -/
structure Accounts (env : Setting K) (blocked : Request K) (flows : List FlowId)
    (x : Embedder R C K) (told : Record) (made : Option RequestId) : Prop where
  tried : told.attempts <+: flows
  moved : told.reconfigured.Sublist told.attempts
  stayed : ∀ flow ∈ told.attempts, flow ∉ told.reconfigured → Stays env blocked flows x flow
  room : made.isSome → ∃ flow, told.successes = [flow] ∧ told.attempts.getLast? = some flow ∧
    told.reconfigured.getLast? = some flow
  no_room : made = none → told.successes = [] ∧ told.attempts = flows

namespace Accounts
variable {rest : List FlowId} {told : Record} {made : Option RequestId} {y z : Embedder R C K}

/-- The first flow stays where it is. -/
theorem stayed_first (accounts : Accounts env blocked rest y told made)
    (stays : Stays env blocked (flow :: rest) x flow)
    (answered : move env x flow blocked = (.ok false, y)) :
    Accounts env blocked (flow :: rest) x
      ⟨flow :: told.attempts, told.reconfigured, told.successes⟩ made where
  tried := (List.prefix_cons_inj flow).mpr accounts.tried
  moved := accounts.moved.cons flow
  stayed := by
    intro other tried unmoved
    rcases List.mem_cons.mp tried with rfl | later
    · exact stays
    · obtain ⟨u, old, request, path, penalized, turn, stuck⟩ :=
        accounts.stayed other later unmoved
      exact ⟨u, old, request, path, penalized, .stayed answered turn, stuck⟩
  room fits := by
    obtain ⟨last, success, tried, moved⟩ := accounts.room fits
    exact ⟨last, success, by simp [List.getLast?_cons, tried], moved⟩
  no_room stuck := by
    obtain ⟨success, all⟩ := accounts.no_room stuck
    exact ⟨success, by rw [all]⟩

/-- The first flow moves and makes no room. -/
theorem moved_first (accounts : Accounts env blocked rest z told made)
    (answered : move env x flow blocked = (.ok true, y))
    (refused : y.embed env.network ∅ blocked none = (none, z)) :
    Accounts env blocked (flow :: rest) x
      ⟨flow :: told.attempts, flow :: told.reconfigured, told.successes⟩ made where
  tried := (List.prefix_cons_inj flow).mpr accounts.tried
  moved := List.cons_sublist_cons.mpr accounts.moved
  stayed := by
    intro other tried unmoved
    obtain ⟨apart, unmoved⟩ := not_or.mp (mt List.mem_cons.mpr unmoved)
    obtain ⟨u, old, request, path, penalized, turn, stuck⟩ :=
      accounts.stayed other (List.mem_of_ne_of_mem apart tried) unmoved
    exact ⟨u, old, request, path, penalized, .moved answered refused turn, stuck⟩
  room fits := by
    obtain ⟨last, success, tried, moved⟩ := accounts.room fits
    exact ⟨last, success, by simp [List.getLast?_cons, tried], by simp [List.getLast?_cons, moved]⟩
  no_room stuck := by
    obtain ⟨success, all⟩ := accounts.no_room stuck
    exact ⟨success, by rw [all]⟩

/-- The first flow moves and makes room. -/
theorem made_room {id : RequestId} :
    Accounts env blocked (flow :: rest) x ⟨[flow], [flow], [flow]⟩ (some id) where
  tried := List.prefix_append [flow] rest
  moved := .refl _
  stayed _ tried unmoved := absurd tried unmoved
  room _ := ⟨flow, rfl, rfl, rfl⟩
  no_room := nofun

end Accounts

/-- The record follows the search, whatever it has been entered before. -/
theorem tryEach_accounts {start : Store K} {record : Record} {outcome : Outcome}
    (searched : Searched start record.reconfigured x.store)
    (distinct : flows.Nodup) (untried : ∀ flow ∈ flows, flow ∉ record.reconfigured)
    (routed : ∀ flow ∈ flows, (routed? start flow).isSome) (open_end : record.successes = [])
    (answered : tryEach env blocked flows record x = (.ok outcome, x')) :
    ∃ told, outcome.record = record.append told ∧
      Accounts env blocked flows x told outcome.request := by
  induction flows generalizing record x with
  | nil =>
    cases answered
    exact ⟨{}, by simp [Record.append], List.prefix_refl _, .refl _, by simp, nofun,
      fun _ => ⟨rfl, rfl⟩⟩
  | cons flow rest ih =>
    obtain ⟨first, distinct⟩ := List.nodup_cons.mp distinct
    obtain ⟨unmoved, untried⟩ := List.forall_mem_cons.mp untried
    obtain ⟨there, routed⟩ := List.forall_mem_cons.mp routed
    unfold tryEach at answered
    dsimp only at answered
    split at answered
    · cases answered
    · rename_i y answer
      obtain ⟨follows, same⟩ := move_false searched.linked answer
      have searched' : Searched start record.reconfigured y.store := searched.same follows same
      obtain ⟨told, entered, accounts⟩ :=
        ih (by exact searched') distinct (by exact untried) routed (by exact open_end) answered
      have stays : Stays env blocked (flow :: rest) x flow :=
        stays_of_move (searched.routed unmoved there) answer
      refine ⟨⟨flow :: told.attempts, told.reconfigured, told.successes⟩, ?_, ?_⟩
      · simp [entered, Record.append]
      · exact accounts.stayed_first stays answer
    · rename_i y answer
      obtain ⟨follows, f, old, new, b, path, moves⟩ := move_true searched.linked answer
      have searched' : Searched start (record.reconfigured ++ [flow]) y.store :=
        searched.move follows moves unmoved
      have untried' := untried_append first untried
      split at answered
      · cases answered
        refine ⟨⟨[flow], [flow], [flow]⟩, ?_, .made_room⟩
        simp [Record.append, open_end]
      · rename_i z refused
        obtain ⟨follows', same, _⟩ :=
          Embedder.embed_none searched'.linked.numbered searched'.linked.mirrored refused
        have searched'' : Searched start (record.reconfigured ++ [flow]) z.store :=
          searched'.same follows' same
        obtain ⟨told, entered, accounts⟩ :=
          ih (by exact searched'') distinct (by exact untried') routed (by exact open_end) answered
        refine ⟨⟨flow :: told.attempts, flow :: told.reconfigured, told.successes⟩, ?_, ?_⟩
        · simp [entered, Record.append]
        · exact accounts.moved_first answer refused

/-- The record of a search that started in `x` and ended in `x'`, against the candidates that were
selected and ranked when it started. -/
structure Recounts (env : Setting K) (blocked : Request K) (x x' : Embedder R C K)
    (candidates : FlowSet) (ranked : List FlowId) (outcome : Outcome) : Prop where
  selected : select env.network x.store env.index blocked env.configuration.selection =
    .ok candidates
  ordered : rank env.network x.store env.index blocked candidates env.configuration.order =
    .ok ranked
  tried : outcome.record.attempts <+: ranked
  once : outcome.record.attempts.Nodup
  limited : outcome.record.attempts.length ≤ env.configuration.maxAttempts candidates.size
  moved : outcome.record.reconfigured.Sublist outcome.record.attempts
  changed : ∀ flow, flow ∈ outcome.record.reconfigured ↔
    x'.store.requestOf? flow ≠ x.store.requestOf? flow
  stayed : ∀ flow ∈ outcome.record.attempts, flow ∉ outcome.record.reconfigured →
    Stays env blocked (ranked.take (env.configuration.maxAttempts candidates.size)) x flow
  room : outcome.request.isSome → ∃ flow, outcome.record.successes = [flow] ∧
    outcome.record.attempts.getLast? = some flow ∧
    outcome.record.reconfigured.getLast? = some flow
  no_room : outcome.request = none → outcome.record.successes = [] ∧
    outcome.record.attempts = ranked.take (env.configuration.maxAttempts candidates.size)

/-- The flows that a search has moved are routed by other requests at its end, and no others are. -/
theorem mem_reconfigured_iff {outcome : Outcome} (linked : x.store.Linked)
    (answered : makeRoom env x blocked = (.ok outcome, x')) :
    flow ∈ outcome.record.reconfigured ↔
      x'.store.requestOf? flow ≠ x.store.requestOf? flow := by
  obtain ⟨s, searched, after⟩ := makeRoom_searched (.begin linked) answered
  have same : x'.store.requestOf? flow = s.requestOf? flow := by
    cases made : outcome.request with
    | none =>
      rw [made] at after
      rw [after]
    | some id =>
      rw [made] at after
      obtain ⟨_, _, gains⟩ := after
      have still : x'.store.flow? flow = s.flow? flow := gains.others .flow flow nofun
      rw [requestOf?, requestOf?, still]
  rw [same]
  exact searched.mem_moved_iff

theorem recounts_makeRoom {outcome : Outcome} (linked : x.store.Linked)
    (answered : makeRoom env x blocked = (.ok outcome, x')) :
    ∃ candidates ranked, Recounts env blocked x x' candidates ranked outcome := by
  have changed : ∀ flow, flow ∈ outcome.record.reconfigured ↔
      x'.store.requestOf? flow ≠ x.store.requestOf? flow :=
    fun _ => mem_reconfigured_iff linked answered
  unfold makeRoom at answered
  split at answered
  · cases answered
  · rename_i flows order
    have distinct := nodup_tryOrder order
    have routed : ∀ flow ∈ flows, (routed? x.store flow).isSome :=
      fun _ => routed_of_mem_tryOrder linked order
    obtain ⟨candidates, ranked, selected, ordered, rfl⟩ := tryOrder_ok order
    obtain ⟨told, entered, accounts⟩ := tryEach_accounts (.begin linked) distinct
      (fun _ _ => List.not_mem_nil) routed rfl answered
    obtain rfl : outcome.record = told := entered
    refine ⟨candidates, ranked, selected, ordered, ?_, ?_, ?_, accounts.moved, changed,
      accounts.stayed, accounts.room, accounts.no_room⟩
    · exact accounts.tried.trans (List.take_prefix _ _)
    · exact distinct.sublist accounts.tried.sublist
    · exact accounts.tried.length_le.trans (List.length_take_le _ _)

end Rerouting

namespace Manager
open Store Transaction
variable {R C : Type} [Quantity K] [CostModel C K] [Router R C K] {m : Manager R C K}
  {d : FlowDemand K} {env : Rerouting.Setting K} {blocked : Request K} {x : Embedder R C K}

/-- A manager in any state was started with the configuration that it has. -/
theorem Reachable.reachableFrom (reachable : m.Reachable) :
    ∃ costs, m.ReachableFrom costs m.configuration := by
  induction reachable with
  | start id calls router costs configuration => exact ⟨costs, .start id calls router⟩
  | run _ operation ih =>
    obtain ⟨costs, reached⟩ := ih
    have later := reached.run operation
    exact ⟨costs, by rwa [later.indexed.1]⟩
  | rebuild _ id calls ih =>
    obtain ⟨costs, reached⟩ := ih
    exact ⟨costs, reached.rebuild id calls⟩

namespace Searches

/-- What the call comes to is what the search comes to. -/
theorem createFlow_eq (searches : m.Searches d env blocked x) :
    ∃ m' : Manager R C K, m'.toEmbedder = x ∧ m'.setting? = some env ∧
      m.createFlow d = m'.createBlockedFlow d blocked := by
  obtain ⟨named, n, n', m', checked, apart, rfl, refused, configured⟩ := searches
  refine ⟨{ m' with toEmbedder := x }, rfl, configured, ?_⟩
  simp only [createFlow, if_neg named, checked, createBetween, if_neg apart, refused]

theorem tells (searches : m.Searches d env blocked x) {outcome : Rerouting.Outcome}
    {x' : Embedder R C K} (answered : Rerouting.makeRoom env x blocked = (.ok outcome, x')) :
    Tells (m.createFlow d) d outcome.record := by
  obtain ⟨m', rfl, configured, created⟩ := searches.createFlow_eq
  obtain ⟨made, record⟩ := outcome
  rw [created]
  cases made with
  | none =>
    left
    simp only [createBlockedFlow, configured, answered]
  | some id =>
    right
    simp only [createBlockedFlow, configured, answered]
    exact ⟨_, _, rfl, (insertFlow_ok rfl).1, rfl⟩

/-- A search begins in a linked store, and the index has the pair of its request. -/
theorem linked_serves (searches : m.Searches d env blocked x) (reachable : m.Reachable) :
    x.store.Linked ∧ Rerouting.Serves env blocked := by
  obtain ⟨named, n, n', m', checked, apart, rfl, refused, configured⟩ := searches
  have passed : (d.check m.network m.store.begin).1 = .ok (n, n') := congrArg Prod.fst checked
  obtain rfl : { m with store := (d.check m.network m.store.begin).2.rollback } = m' :=
    congrArg Prod.snd checked
  have linked := reachable.sound.linked
  obtain ⟨follows, same⟩ :=
    (steps_check d m.network m.store.begin).follows_rollback linked.numbered linked.mirrored
  obtain ⟨follows', same', _⟩ :=
    Embedder.embed_none follows.numbered follows.mirrored refused
  refine ⟨(linked.of_sameRecords follows same).of_sameRecords follows' same', ?_⟩
  obtain ⟨c, has, rfl⟩ := Option.map_eq_some_iff.mp configured
  obtain ⟨costs, reached⟩ := reachable.reachableFrom
  have has : m.configuration = some c := has
  rw [has] at reached
  obtain ⟨source, destination⟩ := reachable.ends_mem passed
  exact reached.serves source destination apart

end Searches
end Manager

section ranked
variable [Quantity K] {net : Network K} {request blocked : Request K}
  {penalized : Std.ExtTreeSet EdgeId} {x x' : Embedder RankedRouter (TokenBucket K) K}

/-- The router finds no path for the request when no edge is penalized. -/
def Embedder.Stuck (net : Network K) (request : Request K)
    (x : Embedder RankedRouter (TokenBucket K) K) : Prop :=
  x.router.route? net request (.base x.costs) = none

/-- What the router answers can be registered, so it had no answer when nothing was embedded. -/
theorem Embedder.route?_of_embed_none {replaces : Option RequestId}
    (answered : x.embed net penalized request replaces = (none, x')) :
    x'.router = x.router ∧ x'.costs = x.costs ∧
      x.router.route? net request ⟨x.costs, penalized⟩ = none := by
  unfold embed at answered
  dsimp only [Router.route] at answered
  split at answered
  · rename_i no_route
    cases answered
    exact ⟨rfl, rfl, no_route⟩
  · rename_i path routed
    have accessible := (RankedRouter.simple_query_iff penalized).mp
      (RankedRouter.route?_eq_some routed).1
    have registered : CostModel.register? (⟨x.costs, penalized⟩ : Surcharged (TokenBucket K)) net
        path request = some ⟨path.foldl (TokenBucket.charge request) x.costs, penalized⟩ := by
      simpa [CostModel.register?] using accessible.room
    rw [registered] at answered
    cases answered

namespace Rerouting
variable {env : Setting K} {flow : FlowId} {flows : List FlowId} {record record' : Record}

/-- A flow that stays leaves the costs and the router as they were. -/
theorem stuck_of_move (stuck : x.Stuck env.network blocked)
    (answered : move env x flow blocked = (.ok false, x')) : x'.Stuck env.network blocked := by
  unfold move at answered
  split at answered
  · cases answered
    exact stuck
  · split at answered
    · cases answered
    · split at answered
      · rename_i embedded
        cases answered
        obtain ⟨router, costs, _⟩ := Embedder.route?_of_embed_none embedded
        rwa [Embedder.Stuck, router, costs]
      · cases answered

/-- Every move is followed by a new attempt, so at the end of a search that makes no room the last
word on the blocked request still holds. -/
theorem stuck_of_tryEach (stuck : x.Stuck env.network blocked)
    (answered : tryEach env blocked flows record x = (.ok ⟨none, record'⟩, x')) :
    x'.Stuck env.network blocked := by
  induction flows generalizing record x with
  | nil =>
    cases answered
    exact stuck
  | cons flow rest ih =>
    unfold tryEach at answered
    dsimp only at answered
    split at answered
    · cases answered
    · rename_i stayed
      exact ih (stuck_of_move stuck stayed) answered
    · split at answered
      · cases answered
      · rename_i refused
        obtain ⟨router, costs, no_route⟩ := Embedder.route?_of_embed_none refused
        refine ih ?_ answered
        rwa [Embedder.Stuck, router, costs]

theorem stuck_of_makeRoom (stuck : x.Stuck env.network blocked)
    (answered : makeRoom env x blocked = (.ok ⟨none, record'⟩, x')) :
    x'.Stuck env.network blocked := by
  unfold makeRoom at answered
  split at answered
  · cases answered
  · exact stuck_of_tryEach stuck answered

end Rerouting

namespace Manager
variable {m m' : Manager RankedRouter (TokenBucket K) K} {d : FlowDemand K} {name : String}
  {record : Option Rerouting.Record}

theorem stuck_of_createBlockedFlow (stuck : m.Stuck m.network request)
    (answered : m.createBlockedFlow d request = (.error (.infeasible name record), m')) :
    m'.Stuck m'.network request := by
  unfold createBlockedFlow at answered
  split at answered
  · cases answered
    exact stuck
  · rename_i env configured
    obtain ⟨c, _, rfl⟩ := Option.map_eq_some_iff.mp configured
    split at answered
    · rename_i failed
      obtain ⟨_, _, _, _, rfl⟩ := Rerouting.makeRoom_error failed
      cases answered
    · rename_i found
      cases answered
      exact Rerouting.stuck_of_makeRoom stuck found
    · cases answered

/-- A demand that is infeasible has no path in the end, although flows may have been moved. -/
theorem stuck_of_infeasible
    (answered : m.createFlow d = (.error (.infeasible name record), m')) :
    ∃ n n', (d.check m.network m.store.begin).1 = .ok (n, n') ∧ n ≠ n' ∧
      m'.Stuck m'.network (d.request n n') := by
  unfold createFlow at answered
  split at answered
  · cases answered
  · split at answered
    · rename_i e checked looked
      have refusal : (d.check m.network m.store.begin).1 = .error e := congrArg Prod.fst looked
      cases answered
      exact (d.refuses_check m.network m.store.begin _ refusal).elim
    · rename_i n n' checked looked
      have passed : (d.check m.network m.store.begin).1 = .ok (n, n') := congrArg Prod.fst looked
      unfold createBetween at answered
      split at answered
      · cases answered
      · rename_i apart
        dsimp only at answered
        split at answered
        · cases answered
        · rename_i x refused
          obtain ⟨router, costs, no_route⟩ := Embedder.route?_of_embed_none refused
          refine ⟨n, n', passed, apart, stuck_of_createBlockedFlow ?_ answered⟩
          show x.router.route? checked.network (d.request n n') (.base x.costs) = none
          rwa [router, costs]

end Manager
end ranked

namespace Manager
variable [Quantity K]

/-- Whatever the router and the cost model are: every search that a call in a reachable state
begins comes to its end, the call answers with the record of that search, and the record is right.
With the ranked router and token buckets, a call that is refused as infeasible leaves a state in
which there is no path for the request when no edge is penalized. -/
theorem recounts_createFlow :
    (∀ {R C : Type} [CostModel C K] [Router R C K] {m : Manager R C K} {d : FlowDemand K}
        {env : Rerouting.Setting K} {blocked : Request K} {x : Embedder R C K},
      m.Reachable → m.Searches d env blocked x →
        ∃ outcome x' candidates ranked,
          Rerouting.makeRoom env x blocked = (.ok outcome, x') ∧
          Tells (m.createFlow d) d outcome.record ∧
          Rerouting.Recounts env blocked x x' candidates ranked outcome) ∧
    ∀ {m m' : Manager RankedRouter (TokenBucket K) K} {d : FlowDemand K} {name : String}
        {record : Option Rerouting.Record},
      m.createFlow d = (.error (.infeasible name record), m') →
        ∃ n n', (d.check m.network m.store.begin).1 = .ok (n, n') ∧ n ≠ n' ∧
          m'.router.route? m'.network (d.request n n') (.base m'.costs) = none := by
  refine ⟨?_, stuck_of_infeasible⟩
  intro R C _ _ m d env blocked x reachable searches
  obtain ⟨linked, serves⟩ := searches.linked_serves reachable
  obtain ⟨outcome, found⟩ := serves.makeRoom x
  obtain ⟨x', answered⟩ : ∃ x', Rerouting.makeRoom env x blocked = (.ok outcome, x') :=
    ⟨_, Prod.ext found rfl⟩
  obtain ⟨candidates, ranked, recounts⟩ := Rerouting.recounts_makeRoom linked answered
  exact ⟨outcome, x', candidates, ranked, answered, searches.tells answered, recounts⟩

/-- Two flows on one of two links. The router will refuse a third and another path for the first
flow, and then it has the other link for the second flow. -/
def crowdedManager : Manager Scripted (TokenBucket ℚ) ℚ :=
  Operation.runAll
    (.start
      (BuildingCall.runAll (.empty 0)
        [.host "left", .host "right", .simpleLink 0 1 1000000, .simpleLink 0 1 1000000])
      ⟨[some [3], some [3], none, none, some [5], some [3]]⟩ .empty
      (some ⟨.allFlows, .unsorted, .queueLink, .ownPathOnly, .absolute 5, trivial⟩))
    [.createTenant "tenant", .createVm ⟨0⟩ "a" (.on ⟨0, 0⟩), .createVm ⟨0⟩ "b" (.on ⟨0, 1⟩),
      .createFlow (sampleDemand "first" 1), .createFlow (sampleDemand "second" 2)]

/-- The urgent flow without the time for any way. -/
def hastyDemand : FlowDemand ℚ := { urgentDemand with latency := 1 }

/-- The third flow is admitted after the second one has moved; the first one was tried and stays.
For a hasty flow the patient one is moved out of the way, and there is still no path. -/
theorem recounts_createFlow_crowded :
    (∃ env blocked x outcome x' candidates ranked,
      crowdedManager.Searches (sampleDemand "third" 3) env blocked x ∧
      Rerouting.Recounts env blocked x x' candidates ranked outcome ∧
      outcome.record = ⟨[⟨0⟩, ⟨1⟩], [⟨1⟩], [⟨1⟩]⟩) ∧
    ∃ m' n n', detourManager.createFlow hastyDemand =
        (.error (.infeasible "urgent" (some ⟨[⟨0⟩], [⟨0⟩], []⟩)), m') ∧
      m'.router.route? m'.network (hastyDemand.request n n') (.base m'.costs) = none := by
  constructor
  · have admitted : (crowdedManager.createFlow (sampleDemand "third" 3)).1 = .ok ⟨2⟩ := by
      decide +kernel
    have entered : ((crowdedManager.createFlow (sampleDemand "third" 3)).2.store.flow? ⟨2⟩).bind
        (·.rerouting) = some ⟨[⟨0⟩, ⟨1⟩], [⟨1⟩], [⟨1⟩]⟩ := by decide +kernel
    obtain ⟨f, stored, recorded⟩ := Option.bind_eq_some_iff.mp entered
    obtain ⟨env, blocked, x, searches, outcome, x', record, found⟩ :=
      exists_searches (by decide) (.inr ⟨⟨2⟩, f, admitted, stored, recorded⟩)
    have reachable : crowdedManager.Reachable := (Reachable.start 0 _ _ _ _).runAll _
    obtain ⟨outcome', y, candidates, ranked, answered, _, recounts⟩ :=
      recounts_createFlow.1 reachable searches
    rw [found] at answered
    cases answered
    exact ⟨env, blocked, x, outcome, x', candidates, ranked, searches, recounts, record⟩
  · have refused : (detourManager.createFlow hastyDemand).1 =
        .error (.infeasible "urgent" (some ⟨[⟨0⟩], [⟨0⟩], []⟩)) := by decide +kernel
    obtain ⟨m', answered⟩ : ∃ m', detourManager.createFlow hastyDemand =
        (.error (.infeasible "urgent" (some ⟨[⟨0⟩], [⟨0⟩], []⟩)), m') := ⟨_, Prod.ext refused rfl⟩
    obtain ⟨n, n', _, _, no_path⟩ := recounts_createFlow.2 answered
    exact ⟨m', n, n', answered, no_path⟩

end Manager
end FlowAdmission
