import FlowAdmission.Proofs.Manager.Machines
import FlowAdmission.Proofs.Manager.Moves
import FlowAdmission.Proofs.Network.Ownership

/-!
# The ways an admission ends

A call that creates a flow ends in one of three ways (`Manager.admission_createFlow`). It is refused
and nothing has changed; it is refused for want of room after some flows were moved; or the flow
is stored together with its request, again possibly after moves. A flow has a request exactly when
its machines run on different hosts, because every interface node belongs to one host.
-/
namespace FlowAdmission
variable {K : Type}

/-- Where no record that was read passed the test, none passes it. -/
theorem Transaction.test_anyRead_false {k : Kind} {test : Record K k → Bool} {t : Transaction K}
    {handles : List (Handle k)} (none_passed : (t.anyRead test handles).1 = false) {h : Handle k}
    {r : Record K k} (read : h ∈ handles) (live : t.store.get? h = some r) : test r = false := by
  induction handles generalizing t with
  | nil => cases read
  | cons first rest ih =>
    unfold anyRead at none_passed
    dsimp only at none_passed
    split at none_passed
    · cases none_passed
    · rename_i failed
      rw [get?_lock] at failed
      rcases List.mem_cons.mp read with rfl | later
      · simpa [live] using failed
      · exact ih none_passed later (by rwa [get?_lock])

/-- A refusal for want of room, with the record of what was moved. -/
def Error.Recorded : Error → Prop
  | .infeasible _ (some _) => True
  | _ => False

/-- The refusals of a demand. They name what is wrong with its machines, their hosts, its matching
or its amounts. -/
def Error.OfDemand : Error → Prop
  | .unknownVm _ | .differentTenants _ _ | .foreignHost _ _ | .foreignVm _ _
  | .severalInterfaces _ _ _ | .duplicateMatching _ | .emptyDemand _ => True
  | _ => False

/-- A computation that refuses for reasons of one kind only. -/
def Refuses {α : Type} (reason : Error → Prop) (answer : Except Error α) : Prop :=
  ∀ e, answer = .error e → reason e

namespace Refuses
variable {α β : Type} {reason : Error → Prop}

theorem ok (a : α) : Refuses reason (.ok a) := nofun

theorem error {e : Error} (fits : reason e) : Refuses reason (.error e : Except Error α) := by
  rintro _ ⟨⟩
  exact fits

theorem bind {answer : Except Error α} {f : α → Except Error β} (first : Refuses reason answer)
    (next : ∀ a, Refuses reason (f a)) : Refuses reason (answer >>= f) := by
  cases answer with
  | error e => exact error (first e rfl)
  | ok a => exact next a

end Refuses

theorem eq_ok_of_bind {α β : Type} {answer : Except Error α} {f : α → Except Error β} {b : β}
    (passed : (answer >>= f) = .ok b) : ∃ a, answer = .ok a ∧ f a = .ok b := by
  cases answer with
  | error e => cases passed
  | ok a => exact ⟨a, rfl, passed⟩

namespace Network

theorem refuses_requireHost (net : Network K) (role : Role) (vm : VirtualMachine) :
    Refuses Error.OfDemand (net.requireHost role vm) := by
  unfold requireHost
  split
  · exact .ok _
  · exact .error trivial

theorem refuses_singleInterface (net : Network K) (role : Role) (h : HostId) :
    Refuses Error.OfDemand (net.singleInterface role h) := by
  unfold singleInterface
  split
  · exact .error trivial
  · split
    · exact .ok _
    · exact .error trivial

end Network

namespace FlowDemand
variable [Quantity K] (d : FlowDemand K) (net : Network K)

theorem refuses_endpoints (source destination : VirtualMachine) (taken : Bool) :
    Refuses Error.OfDemand (d.endpoints net source destination taken) := by
  unfold endpoints
  dsimp only
  split
  · exact .error trivial
  · refine .bind (net.refuses_requireHost _ _) fun _ => ?_
    refine .bind (net.refuses_requireHost _ _) fun _ => ?_
    split
    · exact .error trivial
    · refine .bind (net.refuses_singleInterface _ _) fun _ => ?_
      refine .bind (net.refuses_singleInterface _ _) fun _ => ?_
      split
      · exact .error trivial
      · exact .ok _

/-- The machines of a demand that passes have one tenant, its matching is not taken, and its nodes
are the interfaces of the machines' hosts. -/
theorem endpoints_ok {source destination : VirtualMachine} {taken : Bool} {n n' : NodeId}
    (passed : d.endpoints net source destination taken = .ok (n, n')) :
    source.tenant = destination.tenant ∧ taken = false ∧
      net.singleInterface .source source.host = .ok n ∧
      net.singleInterface .destination destination.host = .ok n' := by
  unfold endpoints at passed
  dsimp only at passed
  split at passed
  · cases passed
  · rename_i one_tenant
    obtain ⟨_, _, passed⟩ := eq_ok_of_bind passed
    obtain ⟨_, _, passed⟩ := eq_ok_of_bind passed
    split at passed
    · cases passed
    · rename_i free
      obtain ⟨m, source_node, passed⟩ := eq_ok_of_bind passed
      obtain ⟨m', destination_node, passed⟩ := eq_ok_of_bind passed
      split at passed
      · cases passed
      · cases passed
        exact ⟨Decidable.not_not.mp one_tenant, Bool.eq_false_iff.mpr free, source_node,
          destination_node⟩

/-- A demand that does not pass is refused for what is wrong with it. -/
theorem refuses_check (t : Transaction K) : Refuses Error.OfDemand (d.check net t).1 := by
  unfold check
  split
  · exact .error trivial
  · exact .error trivial
  · exact d.refuses_endpoints net _ _ _

theorem unrecorded_check {t : Transaction K} {e : Error} (refusal : (d.check net t).1 = .error e) :
    ¬e.Recorded := by
  have reason := d.refuses_check net t e refusal
  rintro recorded
  cases e with
  | infeasible => exact reason
  | _ => exact recorded

/-- A demand that passes has live machines of one tenant on hosts with one interface each. -/
theorem check_ok {t : Transaction K} {n n' : NodeId}
    (passed : (d.check net t).1 = .ok (n, n')) :
    ∃ v w, t.store.vm? d.source = some v ∧ t.store.vm? d.destination = some w ∧
      v.tenant = w.tenant ∧ net.singleInterface .source v.host = .ok n ∧
      net.singleInterface .destination w.host = .ok n' := by
  unfold check at passed
  split at passed
  · cases passed
  · cases passed
  · rename_i v w source destination
    obtain ⟨one_tenant, _, nodes⟩ := d.endpoints_ok net passed
    exact ⟨v, w, source, destination, one_tenant, nodes⟩

/-- No flow that the source of a passing demand lists has the same source and matching. -/
theorem check_distinct {t : Transaction K} {n n' : NodeId}
    (passed : (d.check net t).1 = .ok (n, n')) {v : VirtualMachine}
    (source : t.store.vm? d.source = some v) {id : FlowId} {f : Flow K} (listed : id ∈ v.flows)
    (live : t.store.flow? id = some f) (leaves : f.source = d.source) :
    f.matching ≠ d.matching := by
  unfold check at passed
  split at passed
  · cases passed
  · cases passed
  · rename_i v' w source' destination
    rw [source] at source'
    cases source'
    obtain ⟨_, free, _⟩ := d.endpoints_ok net passed
    have kept : ((t.lock d.source).lock d.destination).store.get? id = some f := by
      rw [Transaction.get?_lock, Transaction.get?_lock]
      exact live
    have apart := Transaction.test_anyRead_false free listed kept
    simpa [leaves] using apart

end FlowDemand

/-- The flows that were moved for a new one. -/
def Flow.movedFor (flow : Flow K) : List FlowId := (flow.rerouting.map (·.reconfigured)).getD []

namespace Manager
open Store Transaction
variable {R C : Type}

/-- How a call that creates a flow ends, seen from the store and the cost model it started with. -/
inductive Admission (start : Store K) (costs : C) (d : FlowDemand K) :
    Except Error FlowId × Manager R C K → Prop
  /-- The records, the locks and the reservations are as they were. -/
  | refused {e : Error} {m : Manager R C K} (plain : ¬e.Recorded) (follows : Follows start m.store)
      (same : SameRecords start m.store) (kept : m.costs = costs) :
      Admission start costs d (.error e, m)
  /-- A search has moved some flows and made no room. -/
  | blocked {record : Rerouting.Record} {m : Manager R C K}
      (searched : Searched start record.reconfigured m.store) :
      Admission start costs d (.error (.infeasible d.name (some record)), m)
  /-- Some flows may have been moved, the request was embedded if there is one, and the flow was
  stored then. -/
  | admitted (flow : Flow K) {s t : Store K} {booking : Booking K} {v w : VirtualMachine}
      {m : Manager R C K} (searched : Searched start flow.movedFor s)
      (awaits : Awaits s t flow.request booking) (follows : Follows s t)
      (source : start.vm? flow.source = some v) (destination : start.vm? flow.destination = some w)
      (hosts : flow.request = none ↔ v.host = w.host)
      (stored : m.store = (t.begin.addFlow flow).2.unlocked) :
      Admission start costs d (.ok (t.begin.addFlow flow).1, m)

variable [Quantity K] [CostModel C K] [Router R C K] {m : Manager R C K} {start : Store K}
  {costs : C} {d : FlowDemand K} {v w : VirtualMachine}

theorem admission_createBlockedFlow (linked : start.Linked) (follows : Follows start m.store)
    (same : SameRecords start m.store) (kept : m.costs = costs)
    (source : start.vm? d.source = some v) (destination : start.vm? d.destination = some w)
    (apart : v.host ≠ w.host) (request : Request K) :
    Admission start costs d (m.createBlockedFlow d request) := by
  have searched := (Searched.begin linked).same follows same
  unfold createBlockedFlow
  split
  · exact .refused (fun recorded => recorded) follows same kept
  · rename_i env _
    split
    · rename_i answered
      obtain ⟨rfl, unindexed⟩ := Rerouting.makeRoom_error answered
      obtain ⟨_, _, _, rfl⟩ := unindexed
      exact .refused (fun recorded => recorded) follows same kept
    · rename_i record x answered
      obtain ⟨s, searched, rfl⟩ := Rerouting.makeRoom_searched searched answered
      exact .blocked searched
    · rename_i id record x answered
      obtain ⟨s, searched, follows, path, gains⟩ :=
        Rerouting.makeRoom_searched searched answered
      have hosts : (some id : Option RequestId) = none ↔ v.host = w.host :=
        ⟨nofun, fun same => absurd same apart⟩
      exact .admitted (d.toFlow (some id) (some record)) searched
        (gains.awaits searched.linked.numbered) follows source destination hosts rfl

theorem admission_createBetween (linked : start.Linked) (follows : Follows start m.store)
    (same : SameRecords start m.store) (kept : m.costs = costs)
    (source : start.vm? d.source = some v) (destination : start.vm? d.destination = some w)
    {n n' : NodeId} (hosts : n = n' ↔ v.host = w.host) :
    Admission start costs d (m.createBetween d n n') := by
  have searched := (Searched.begin linked).same follows same
  unfold createBetween
  split
  · rename_i one_host
    have hosts : (none : Option RequestId) = none ↔ v.host = w.host :=
      ⟨fun _ => hosts.mp one_host, fun _ => rfl⟩
    exact .admitted (d.toFlow none none) searched
      (awaits_none m.store (d.request n n')) (.refl follows.numbered follows.mirrored)
      source destination hosts rfl
  · rename_i two_hosts
    have apart : v.host ≠ w.host := fun together => two_hosts (hosts.mpr together)
    dsimp only
    split
    · rename_i id x embedded
      obtain ⟨after, path, gains⟩ :=
        Embedder.embed_some follows.numbered follows.mirrored embedded
      have hosts : (some id : Option RequestId) = none ↔ v.host = w.host :=
        ⟨nofun, fun together => absurd together apart⟩
      have nothing_moved : (d.toFlow (some id)
          (m.configuration.map fun _ => {})).movedFor = [] := by
        cases configured : m.configuration <;> simp [Flow.movedFor, FlowDemand.toFlow]
      exact .admitted (d.toFlow (some id) (m.configuration.map fun _ => {}))
        (by rwa [nothing_moved]) (gains.awaits follows.numbered) after source destination hosts
        rfl
    · rename_i x refused
      obtain ⟨after, unchanged, costs_kept⟩ :=
        Embedder.embed_none follows.numbered follows.mirrored refused
      exact admission_createBlockedFlow linked (follows.trans after) (same.trans unchanged)
        (costs_kept.trans kept) source destination apart _

/-- A call that creates a flow in a linked store ends in one of the three ways. -/
theorem admission_createFlow (linked : m.store.Linked) (owned : m.network.Owned)
    (d : FlowDemand K) : Admission m.store m.costs d (m.createFlow d) := by
  unfold createFlow
  split
  · exact .refused (fun recorded => recorded) (.refl linked.numbered linked.mirrored) (.refl _) rfl
  · have steps := steps_check d m.network m.store.begin
    obtain ⟨follows, same⟩ := steps.follows_rollback linked.numbered linked.mirrored
    split
    · rename_i e checked answered
      have refusal : (d.check m.network m.store.begin).1 = .error e := congrArg Prod.fst answered
      obtain rfl : { m with store := (d.check m.network m.store.begin).2.rollback } = checked :=
        congrArg Prod.snd answered
      exact .refused (d.unrecorded_check m.network refusal) follows same rfl
    · rename_i n n' checked answered
      have passed : (d.check m.network m.store.begin).1 = .ok (n, n') :=
        congrArg Prod.fst answered
      obtain rfl : { m with store := (d.check m.network m.store.begin).2.rollback } = checked :=
        congrArg Prod.snd answered
      obtain ⟨v, w, source, destination, _, node, node'⟩ := d.check_ok m.network passed
      exact admission_createBetween (m := { m with store := _ }) linked follows same rfl source
        destination (owned.singleInterface_inj node node')

omit [Quantity K] [Router R C K] in
/-- Storing a flow points its request back at it. -/
theorem insertFlow_ok {m' : Manager R C K} {flow : Flow K} {id : FlowId}
    (answered : m.insertFlow flow = (.ok id, m')) :
    m'.store.flow? id = some flow ∧ ∀ r b, flow.request = some r → m.store.request? r = some b →
      m'.store.request? r = some { b with flow := some id } := by
  cases answered
  refine ⟨?_, fun r b requested held => ?_⟩
  · refine (get?_unlocked _ _).trans ((m.store.begin.flow?_addFlow flow _).trans ?_)
    exact if_pos rfl
  · refine (get?_unlocked _ _).trans ((m.store.begin.request?_addFlow flow r).trans ?_)
    rw [if_pos requested, show m.store.begin.store.request? r = some b from held]
    rfl

/-- A flow as it was asked for is stored, with a request for what it needs. -/
structure Admits (m : Manager R C K) (d : FlowDemand K) (n n' : NodeId) (id : FlowId)
    (m' : Manager R C K) : Prop where
  passed : (d.check m.network m.store.begin).1 = .ok (n, n')
  stored : ∃ request record, m'.store.flow? id = some (d.toFlow request record)
  asked : ∀ f r, m'.store.flow? id = some f → f.request = some r →
    ∃ b, m'.store.request? r = some b ∧ b.request = d.request n n'

section admits
variable {u m' : Manager R C K} {n n' : NodeId} {id : FlowId}

omit [Router R C K] in
theorem admits_insertFlow {request : Option RequestId} {record : Option Rerouting.Record}
    (passed : (d.check m.network m.store.begin).1 = .ok (n, n'))
    (asked : ∀ r, request = some r →
      ∃ b, u.store.request? r = some b ∧ b.request = d.request n n')
    (answered : u.insertFlow (d.toFlow request record) = (.ok id, m')) :
    Admits m d n n' id m' := by
  obtain ⟨stored, pointed⟩ := insertFlow_ok answered
  refine ⟨passed, ⟨request, record, stored⟩, fun f r live requested => ?_⟩
  rw [stored] at live
  cases live
  obtain ⟨b, held, same⟩ := asked r requested
  exact ⟨_, pointed r b requested held, same⟩

theorem admits_createBlockedFlow (linked : u.store.Linked)
    (passed : (d.check m.network m.store.begin).1 = .ok (n, n'))
    (answered : u.createBlockedFlow d (d.request n n') = (.ok id, m')) :
    Admits m d n n' id m' := by
  unfold createBlockedFlow at answered
  split at answered
  · cases answered
  · split at answered
    · cases answered
    · cases answered
    · rename_i r record x made
      obtain ⟨s, _, _, path, gains⟩ :=
        Rerouting.makeRoom_searched (Searched.begin linked) made
      refine admits_insertFlow passed ?_ answered
      rintro _ ⟨⟩
      exact ⟨_, (gains.requests r).trans (if_pos rfl), rfl⟩

theorem admits_createBetween (linked : u.store.Linked)
    (passed : (d.check m.network m.store.begin).1 = .ok (n, n'))
    (answered : u.createBetween d n n' = (.ok id, m')) : Admits m d n n' id m' := by
  unfold createBetween at answered
  split at answered
  · refine admits_insertFlow passed ?_ answered
    exact fun _ requested => nomatch requested
  · dsimp only at answered
    split at answered
    · rename_i r x embedded
      obtain ⟨_, path, gains⟩ := Embedder.embed_some linked.numbered linked.mirrored embedded
      refine admits_insertFlow passed ?_ answered
      rintro _ ⟨⟩
      exact ⟨_, (gains.requests r).trans (if_pos rfl), rfl⟩
    · rename_i x refused
      obtain ⟨follows, same, _⟩ := Embedder.embed_none linked.numbered linked.mirrored refused
      exact admits_createBlockedFlow (u := { u with toEmbedder := x })
        (linked.of_sameRecords follows same) passed answered

/-- A call that creates a flow has stored what was asked for. -/
theorem admits_createFlow (linked : m.store.Linked)
    (answered : m.createFlow d = (.ok id, m')) : ∃ n n', Admits m d n n' id m' := by
  unfold createFlow at answered
  split at answered
  · cases answered
  · split at answered
    · cases answered
    · rename_i n n' checked looked
      have passed : (d.check m.network m.store.begin).1 = .ok (n, n') :=
        congrArg Prod.fst looked
      obtain rfl : { m with store := (d.check m.network m.store.begin).2.rollback } = checked :=
        congrArg Prod.snd looked
      obtain ⟨follows, same⟩ :=
        (steps_check d m.network m.store.begin).follows_rollback linked.numbered linked.mirrored
      exact ⟨n, n', admits_createBetween (u := { m with store := _ })
        (linked.of_sameRecords follows same) passed answered⟩

end admits
end Manager
end FlowAdmission
