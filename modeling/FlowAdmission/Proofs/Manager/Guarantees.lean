import FlowAdmission.Proofs.Cost.Capacity
import FlowAdmission.Proofs.Manager.Accounting
import FlowAdmission.Proofs.Manager.Anchors
import FlowAdmission.Proofs.Routing.Ranked

/-!
# Admission guarantees

A manager with the ranked router and token buckets keeps what it has promised to its flows
(`Operation.guarantees_runAll`): every flow between hosts has a loop-free path between their first
interfaces, fast enough for it, and no queue gives away more rate or buffer than it has. The
latter holds also while a flow is being moved and its old path and its new one are both registered.

Three things work together. What is held serves its request and stays within the queues
(`Embedder.Guaranteed`); every embedding checks that, and every release can only help. The request
of a flow is what the flow needs (`Store.Anchored`). And networks grow without changing what is
there (`Network.Extends`).
-/
namespace FlowAdmission
variable {K : Type} [Quantity K]

namespace Embedder
open Transaction

/-- The paths that are held serve their requests, and together they ask of no queue more than it
has. -/
structure Guaranteed (net : Network K) (x : Embedder RankedRouter (TokenBucket K) K) : Prop where
  accounted : x.Accounted
  serves : ∀ item ∈ x.store.outstanding, net.Serves item.1 item.2
  within : ∀ [Exact.Ordered K], x.costs.Within net

namespace Guaranteed
variable {net net' : Network K} {x : Embedder RankedRouter (TokenBucket K) K} {t : Transaction K}

/-- The end of a transaction, when the paths that it attached have been registered. -/
theorem commit {attached : List (Path × Request K)} (guaranteed : x.Guaranteed net)
    {costs : TokenBucket K} {router : RankedRouter} (steps : Steps attached x.store.begin t)
    (measured : ∀ item ∈ attached, item.2.Measured)
    (charged : costs.Balanced (attached ++ x.store.outstanding))
    (serves : ∀ item ∈ attached, net.Serves item.1 item.2)
    (within : ∀ [Exact.Ordered K], costs.Within net) :
    (Embedder.commit { x with router, costs } net t).Guaranteed net := by
  have perm := steps.perm_begin guaranteed.accounted.numbered
  have all_measured := guaranteed.accounted.measured_charged steps measured
  have accounted : (Embedder.commit { x with router, costs } net t).Accounted :=
    guaranteed.accounted.commit steps measured charged net
  have same := outstanding_unlocked t
  have balanced : (CostModel.giveBack costs net t.released).Balanced t.unlocked.outstanding :=
    accounted.balanced
  rw [same] at balanced
  refine ⟨accounted, fun item held => ?_, ?_⟩
  · have held : item ∈ t.store.outstanding := same ▸ held
    rcases List.mem_append.mp (perm.mem_iff.mp (List.mem_append_right _ held)) with new | old
    · exact serves item new
    · exact guaranteed.serves item old
  · intro _
    exact within.less (charged.perm perm.symm) balanced all_measured

/-- A transaction that is undone leaves what it found. -/
theorem rollback {attached : List (Path × Request K)} (guaranteed : x.Guaranteed net)
    (steps : Steps attached x.store.begin t) (router : RankedRouter) :
    Guaranteed net { x with store := t.rollback, router } := by
  obtain ⟨_, same⟩ :=
    steps.follows_rollback guaranteed.accounted.numbered guaranteed.accounted.mirrored
  refine ⟨guaranteed.accounted.rollback steps router, ?_, guaranteed.within⟩
  show ∀ item ∈ t.rollback.outstanding, _
  rw [same.outstanding]
  exact guaranteed.serves

/-- The router answers with a path that serves the request, and registering it has found room on
all its queues. -/
theorem embed (guaranteed : x.Guaranteed net) (penalized : Std.ExtTreeSet EdgeId)
    {request : Request K} (measured : request.Measured) (replaces : Option RequestId) :
    (x.embed net penalized request replaces).2.Guaranteed net := by
  have stored := steps_insert (k := .request) x.store.begin
    ({ request, replaces } : Booking K) (rfl : none = none)
  rcases x.embed_cases net penalized request replaces with
    ⟨router, undone⟩ | ⟨router, path, costs, routed, registered, kept⟩
  · rw [undone]
    exact guaranteed.rollback stored router
  · rw [kept]
    have attached := steps_embedded x.store ({ request, replaces } : Booking K) path rfl
    have serves : net.Serves path request := RankedRouter.serves_of_route? routed
    refine guaranteed.commit attached (List.forall_mem_singleton.mpr measured)
      (guaranteed.accounted.balanced.register registered) (List.forall_mem_singleton.mpr serves) ?_
    intro _
    exact guaranteed.within.register serves.simple.nodup registered

theorem stable (net : Network K) :
    Stable net (Guaranteed net : Embedder RankedRouter (TokenBucket K) K → Prop) where
  commit guaranteed steps :=
    guaranteed.commit steps (by simp) guaranteed.accounted.balanced (by simp) guaranteed.within
  rollback guaranteed steps := guaranteed.rollback steps _
  embed penalized _ replaces guaranteed measured := guaranteed.embed penalized measured replaces
  measured guaranteed routed := guaranteed.accounted.measured_routed routed

/-- What was promised on a network holds when it has grown. -/
theorem grow (guaranteed : x.Guaranteed net) (extends_net : net.Extends net')
    (wired : net'.Wired) : x.Guaranteed net' where
  accounted := guaranteed.accounted
  serves item held := (guaranteed.serves item held).extends_net extends_net
  within := guaranteed.within.grow extends_net wired guaranteed.accounted.balanced
    fun item held => (guaranteed.serves item held).queue?_isSome

theorem start (wired : net.Wired) (router : RankedRouter)
    (configuration : Option Rerouting.Configuration) :
    (Manager.start net router (TokenBucket.empty : TokenBucket K)
      configuration).toEmbedder.Guaranteed net where
  accounted := Operation.accounted_start net router configuration
  serves := by simp [Manager.start]
  within := .nothing wired

end Guaranteed
end Embedder

namespace Operation
open Manager

section networks
variable {R C : Type} [CostModel C K] [Router R C K]

omit [Quantity K] [Router R C K] in
theorem network_attempt {α : Type} (m : Manager R C K)
    (body : Transaction K → Except Error α × Transaction K) :
    (m.attempt body).2.network = m.network := by
  unfold attempt
  split <;> rfl

/-- Calls leave the network as it is or let it grow. -/
theorem extends_run {m : Manager R C K} (wired : m.network.Wired) (operation : Operation K) :
    (operation.run m).2.network.Wired ∧ m.network.Extends (operation.run m).2.network := by
  have still : ∀ {net : Network K}, net = m.network → net.Wired ∧ m.network.Extends net := by
    rintro _ rfl
    exact ⟨wired, .refl _⟩
  cases operation with
  | createTenant name =>
    refine still ?_
    show (m.createTenant name).2.network = m.network
    unfold Manager.createTenant
    split
    · rfl
    · exact network_attempt m _
  | createVm tenant name placement =>
    refine still ?_
    show (m.createVm tenant name placement).2.network = m.network
    unfold Manager.createVm
    split
    · rfl
    · split
      · rfl
      · exact network_attempt m _
  | setConnection vm connection => exact still (network_attempt m _)
  | createFlow demand => exact still (network_createFlow m demand)
  | deleteFlow flow | deleteVm vm | deleteTenant tenant => exact still rfl
  | extendTopology calls => exact wired.runAll calls

end networks
end Operation

namespace Manager
open Store Transaction

section moves
variable {R C : Type} [CostModel C K] {m : Manager R C K} {d : FlowDemand K}
  {record : Rerouting.Record}

/-- The answer to a demand tells how room was searched for: the record of the search is in the
refusal or with the flow. -/
def Tells (answer : Except Error FlowId × Manager R C K) (d : FlowDemand K)
    (record : Rerouting.Record) : Prop :=
  answer.1 = .error (.infeasible d.name (some record)) ∨
    ∃ id f, answer.1 = .ok id ∧ answer.2.store.flow? id = some f ∧ f.rerouting = some record

omit [Quantity K] [CostModel C K] in
theorem not_tells {e : Error} (other : e ≠ .infeasible d.name (some record)) :
    ¬Tells (.error e, m) d record := by
  rintro (refused | ⟨_, _, admitted, _⟩)
  · exact other (Except.error.inj refused)
  · cases admitted

omit [Quantity K] in
theorem rerouting_of_insertFlow {flow : Flow K} (tells : Tells (m.insertFlow flow) d record) :
    flow.rerouting = some record := by
  rcases tells with refused | ⟨id, f, answer, live, records⟩
  · cases refused
  · have added := (insertFlow_ok (Prod.ext answer rfl)).1
    rw [live] at added
    cases added
    exact records

variable [Router R C K]

theorem makeRoom_of_createBlockedFlow {request : Request K}
    (tells : Tells (m.createBlockedFlow d request) d record) :
    ∃ env outcome x, m.setting? = some env ∧ outcome.record = record ∧
      Rerouting.makeRoom env m.toEmbedder request = (.ok outcome, x) := by
  unfold createBlockedFlow at tells
  split at tells
  · exact absurd tells (not_tells nofun)
  · rename_i env configured
    split at tells
    · rename_i failed
      obtain ⟨_, _, _, _, rfl⟩ := Rerouting.makeRoom_error failed
      exact absurd tells (not_tells nofun)
    · rename_i found
      rcases tells with refused | ⟨_, _, admitted, _⟩
      · cases refused
        exact ⟨env, _, _, configured, rfl, found⟩
      · cases admitted
    · rename_i found
      cases rerouting_of_insertFlow tells
      exact ⟨env, _, _, configured, rfl, found⟩

/-- A call that has tried a flow has begun a search. -/
theorem exists_searches (tried : record ≠ {}) (tells : Tells (m.createFlow d) d record) :
    ∃ env blocked x, m.Searches d env blocked x ∧
      ∃ outcome x', outcome.record = record ∧
        Rerouting.makeRoom env x blocked = (.ok outcome, x') := by
  unfold createFlow at tells
  split at tells
  · exact absurd tells (not_tells nofun)
  · rename_i named
    split at tells
    · rename_i e _ answered
      have refusal : (d.check m.network m.store.begin).1 = .error e := congrArg Prod.fst answered
      refine absurd tells (not_tells ?_)
      rintro rfl
      exact d.unrecorded_check m.network refusal trivial
    · rename_i n n' m' checked
      unfold createBetween at tells
      split at tells
      · cases rerouting_of_insertFlow tells
      · rename_i apart
        dsimp only at tells
        split at tells
        · obtain ⟨_, _, rfl⟩ := Option.map_eq_some_iff.mp (rerouting_of_insertFlow tells)
          exact absurd rfl tried
        · rename_i x refused
          obtain ⟨env, outcome, x', configured, told, found⟩ :=
            makeRoom_of_createBlockedFlow tells
          exact ⟨env, _, x, ⟨named, n, n', m', checked, apart, rfl, refused, configured⟩,
            outcome, x', told, found⟩

/-- A call that has moved a flow for the new one has passed through a state in which that flow had
both its paths, whether the new flow was admitted then or not. -/
theorem exists_passesThrough (moved : record.reconfigured ≠ [])
    (tells : Tells (m.createFlow d) d record) : ∃ y, m.PassesThrough d y := by
  have tried : record ≠ {} := by
    rintro rfl
    exact moved rfl
  obtain ⟨env, blocked, x, ⟨named, n, n', m', checked, apart, rfl, refused, configured⟩, outcome,
    x', rfl, found⟩ := exists_searches tried tells
  unfold Rerouting.makeRoom at found
  split at found
  · cases found
  · rename_i flows ordered
    obtain ⟨y, midway⟩ := Rerouting.exists_midway found moved
    exact ⟨y, named, n, n', m', env, x, flows, checked, apart, refused, configured, ordered,
      midway⟩

end moves

/-- A manager whose promises hold, with what they rest on. -/
structure Reliable (m : Manager RankedRouter (TokenBucket K) K) : Prop where
  sound : m.Sound
  wired : m.network.Wired
  guaranteed : m.toEmbedder.Guaranteed m.network
  anchored : m.store.Anchored m.network

theorem reliable_start (id : Nat) (calls : List (BuildingCall K)) (router : RankedRouter)
    (configuration : Option Rerouting.Configuration) :
    (start (BuildingCall.runAll (.empty id) calls) router (TokenBucket.empty : TokenBucket K)
      configuration).Reliable where
  sound := sound_start id calls router _ configuration
  wired := Network.wired_runAll id calls
  guaranteed := .start (Network.wired_runAll id calls) router configuration
  anchored := .nothing

namespace Reliable
variable {m : Manager RankedRouter (TokenBucket K) K}

theorem run (reliable : m.Reliable) (operation : Operation K) : (operation.run m).2.Reliable := by
  obtain ⟨wired, extends_net⟩ := Operation.extends_run reliable.wired operation
  have stable := Embedder.Guaranteed.stable m.network
  exact ⟨Operation.sound_run reliable.sound operation, wired,
    (stable.run reliable.guaranteed operation).grow extends_net wired,
    (Operation.anchored_run reliable.sound reliable.anchored operation).extends_net extends_net⟩

theorem runAll (reliable : m.Reliable) (operations : List (Operation K)) :
    (Operation.runAll m operations).Reliable := by
  induction operations generalizing m with
  | nil => exact reliable
  | cons operation rest ih => exact ih (reliable.run operation)

/-- A flow between hosts has a path that is all it was promised. -/
theorem exists_path (reliable : m.Reliable) {flow : FlowId} {f : Flow K}
    (live : m.store.flow? flow = some f) {v w : VirtualMachine}
    (source : m.store.vm? f.source = some v) (destination : m.store.vm? f.destination = some w)
    (apart : v.host ≠ w.host) :
    ∃ path n n' delay, m.flowPath? flow = some path ∧
      m.network.firstInterface? v.host = some n ∧ m.network.firstInterface? w.host = some n' ∧
      m.network.queueGraph.SimplePath n path n' ∧
      m.network.pathDelay? path = some delay ∧ delay ≤ f.latency / ((1000 : Nat) : K) := by
  obtain ⟨v', w', source', destination', _, _, hosts⟩ := reliable.sound.linked.machines live
  rw [source] at source'
  rw [destination] at destination'
  cases source'
  cases destination'
  cases requested : f.request with
  | none => exact absurd (hosts.mp requested) apart
  | some r =>
    obtain ⟨b, held, _⟩ := reliable.sound.linked.routed live requested
    obtain ⟨path, routed⟩ := Option.isSome_iff_exists.mp (reliable.sound.linked.owned held).1
    obtain ⟨⟨_, source', node⟩, ⟨_, destination', node'⟩, deadline⟩ :=
      reliable.anchored.anchor live requested held
    rw [source] at source'
    rw [destination] at destination'
    cases source'
    cases destination'
    obtain ⟨simple, delay, timed, in_time⟩ := reliable.guaranteed.serves (path, b.request)
      (mem_outstanding.mpr ⟨r, b, held, routed, rfl⟩)
    refine ⟨path, _, _, delay, ?_, node, node', simple, timed, deadline ▸ in_time⟩
    simp [flowPath?, Rerouting.flowPath?, Rerouting.routed?, live, requested, held, routed]

/-- Inside a move the flow's old request and its new one hold a path each. -/
theorem both_held (reliable : m.Reliable) {d : FlowDemand K}
    {y : Embedder RankedRouter (TokenBucket K) K} (passes : m.PassesThrough d y) :
    ∃ flow f old new b b', y.store.flow? flow = some f ∧ f.request = some old ∧ old ≠ new ∧
      y.store.request? old = some b ∧ b.path.isSome ∧ y.store.request? new = some b' ∧
      b'.path.isSome ∧ b'.replaces = some old ∧ b'.request = b.request := by
  have stable := Embedder.Guaranteed.stable m.network
  obtain ⟨_, z, flow, old, new, request, oldPath, penalized, before, routed, embedded⟩ :=
    stable.moving reliable.guaranteed passes
  obtain ⟨numbered, mirrored, _⟩ := before.accounted
  obtain ⟨f, b, live, requested, held, rfl, has_path⟩ := Rerouting.routed?_eq_some routed
  obtain ⟨_, path, gains⟩ := Embedder.embed_some numbered mirrored embedded
  have apart : old ≠ new := by
    rintro rfl
    exact Nat.lt_irrefl _ (gains.fresh numbered held)
  refine ⟨flow, f, old, new, b, _, (gains.others .flow flow nofun).trans live, requested, apart,
    ?_, by rw [has_path]; rfl, (gains.requests new).trans (if_pos rfl), rfl, rfl, rfl⟩
  exact (gains.requests old).trans ((if_neg (Ne.symm apart)).trans held)

/-- No queue of a link gives away more than its share of the rate and its buffer, neither between
two calls nor inside a move. -/
theorem fits (reliable : m.Reliable) [Exact.Ordered K] {l : EdgeId} {link : Link K}
    {queue : Queue K} (live : m.network.link? l = some link) (mem : queue ∈ link.queues) :
    m.costs.Fits queue.edge link queue ∧
      ∀ d y, m.PassesThrough d y → y.costs.Fits queue.edge link queue := by
  have found := reliable.wired.queues live mem
  refine ⟨reliable.guaranteed.within _ _ _ found, fun d y passes => ?_⟩
  have stable := Embedder.Guaranteed.stable m.network
  exact (stable.moving reliable.guaranteed passes).1.within _ _ _ found

end Reliable
end Manager

/-- After any run on a network that was built from nothing, with the ranked router and token
buckets: a flow whose machines run on different hosts has a path, which is a loop-free path of
queues from the first interface of the one host to the first interface of the other, and the sum of
the hop delays is at most the latency of the flow. Where arithmetic is exact, every queue of every
link reserves at most its share of the rate and at most its buffer. It does so, too, in all states
inside a call in which a flow that is moved has two requests, the old one and the new one, that
both hold their paths. -/
theorem Operation.guarantees_runAll (id : Nat) (calls : List (BuildingCall K))
    (router : RankedRouter) (configuration : Option Rerouting.Configuration)
    (operations : List (Operation K)) :
    let m := runAll (Manager.start (BuildingCall.runAll (.empty id) calls) router
      (TokenBucket.empty : TokenBucket K) configuration) operations
    (∀ flow f, m.store.flow? flow = some f → ∃ v w, m.store.vm? f.source = some v ∧
      m.store.vm? f.destination = some w ∧ (v.host ≠ w.host →
        ∃ path n n' delay, m.flowPath? flow = some path ∧
          m.network.firstInterface? v.host = some n ∧
          m.network.firstInterface? w.host = some n' ∧
          m.network.queueGraph.SimplePath n path n' ∧
          m.network.pathDelay? path = some delay ∧ delay ≤ f.latency / ((1000 : Nat) : K))) ∧
    (∀ d y, m.PassesThrough d y →
      ∃ flow f old new b b', y.store.flow? flow = some f ∧ f.request = some old ∧ old ≠ new ∧
        y.store.request? old = some b ∧ b.path.isSome ∧ y.store.request? new = some b' ∧
        b'.path.isSome ∧ b'.replaces = some old ∧ b'.request = b.request) ∧
    ∀ [Exact.Ordered K] l link queue, m.network.link? l = some link → queue ∈ link.queues →
      m.costs.Fits queue.edge link queue ∧
        ∀ d y, m.PassesThrough d y → y.costs.Fits queue.edge link queue := by
  intro m
  have reliable : m.Reliable :=
    (Manager.reliable_start id calls router configuration).runAll operations
  refine ⟨fun flow f live => ?_, fun d y => reliable.both_held, fun l link queue live mem =>
    reliable.fits live mem⟩
  obtain ⟨v, w, source, destination, _⟩ := reliable.sound.linked.machines live
  exact ⟨v, w, source, destination, reliable.exists_path live source destination⟩

section detour

/-- Three hosts with a direct way from the first to the second and one over the third. -/
def detourBuilding : List (BuildingCall ℚ) :=
  [.host "left", .host "right", .host "over", .simpleLink 0 1 1000000, .simpleLink 0 2 1000000,
    .simpleLink 2 1 1000000]

def detourConfiguration : Rerouting.Configuration :=
  ⟨.allFlows, .unsorted, .queueLink, .ownPathOnly, .absolute 1, trivial⟩

/-- A flow that takes the direct way though it has time for the other. -/
def patientFlow : List (Operation ℚ) :=
  [.createTenant "tenant", .createVm ⟨0⟩ "a" (.on ⟨0, 0⟩), .createVm ⟨0⟩ "b" (.on ⟨0, 1⟩),
    .createFlow { Manager.sampleDemand "patient" 1 with contract := ⟨1000, 20000⟩, latency := 100 }]

/-- A second flow, which has no time for the other way. -/
def urgentDemand : FlowDemand ℚ :=
  { Manager.sampleDemand "urgent" 2 with contract := ⟨1000, 20000⟩, latency := 40 }

def detourManager : Manager RankedRouter (TokenBucket ℚ) ℚ :=
  Operation.runAll (.start (BuildingCall.runAll (.empty 0) detourBuilding) {} .empty
    (some detourConfiguration)) patientFlow

/-- The direct way has no room for the second flow until the first one has moved, and while that
holds both its ways no queue gives away too much. -/
theorem Operation.guarantees_detourManager :
    ∃ y, detourManager.PassesThrough urgentDemand y ∧
      (∃ old new, old ≠ new ∧ (y.store.request? old).isSome ∧ (y.store.request? new).isSome) ∧
      ∀ l link queue, detourManager.network.link? l = some link → queue ∈ link.queues →
        y.costs.Fits queue.edge link queue := by
  obtain ⟨_, moving, fits⟩ :=
    guarantees_runAll 0 detourBuilding {} (some detourConfiguration) patientFlow
  have admitted : (detourManager.createFlow urgentDemand).1 = .ok ⟨1⟩ := by decide +kernel
  have records : ((detourManager.createFlow urgentDemand).2.store.flow? ⟨1⟩).bind (·.rerouting) =
      some { attempts := [⟨0⟩], reconfigured := [⟨0⟩], successes := [⟨0⟩] } := by decide +kernel
  obtain ⟨f, stored, recorded⟩ := Option.bind_eq_some_iff.mp records
  obtain ⟨y, passes⟩ := Manager.exists_passesThrough (List.cons_ne_nil _ _)
    (.inr ⟨⟨1⟩, f, admitted, stored, recorded⟩)
  obtain ⟨_, _, old, new, _, _, _, _, apart, held, _, held', _⟩ := moving _ y passes
  exact ⟨y, passes, ⟨old, new, apart, Option.isSome_of_mem held, Option.isSome_of_mem held'⟩,
    fun l link queue live mem => (fits l link queue live mem).2 _ y passes⟩

end detour

end FlowAdmission
