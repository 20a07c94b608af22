import FlowAdmission.Proofs.Exact
import FlowAdmission.Proofs.Manager.Links

/-!
# What a call that creates a flow leaves alone

A call that fails leaves the store and the reservations as they were, unless it failed after
moving flows; then the moved flows, and only they, have new requests. The same holds of the other
flows when the call succeeds (`Manager.frame_createFlow`). This is said of every state that a
manager can be in (`Manager.Reachable`).
-/
namespace FlowAdmission
variable {R C K : Type}

namespace Store
variable {start s : Store K} {moved : List FlowId}

/-- Storing a new flow with its request leaves the other flows where the search has left them. -/
theorem Rearranged.addFlow {flow : Flow K} {booking : Booking K} {t : Transaction K}
    (searched : Searched start moved s) (awaits : Awaits s t.store flow.request booking)
    (unused : start.flow? (t.addFlow flow).1 = none) :
    Rearranged moved start (t.addFlow flow).2.unlocked := by
  obtain ⟨⟨⟨kept, earlier⟩, _, _, _⟩, _, _, linked⟩ := searched
  have flows : ∀ {i f}, start.flow? i = some f →
      (t.addFlow flow).2.unlocked.flow? i = s.flow? i := by
    intro i f live
    have other : (t.addFlow flow).1 ≠ i := by
      intro same
      subst same
      rw [unused] at live
      cases live
    refine (Transaction.get?_unlocked _ _).trans ((t.flow?_addFlow flow i).trans ?_)
    rw [if_neg other]
    exact awaits.others .flow i nofun
  -- The new request is newer than every live one, and so than every one that was replaced.
  have requests : ∀ {r}, (∃ i b, s.request? i = some b ∧ r.index ≤ i.index) →
      (t.addFlow flow).2.unlocked.request? r = s.request? r := by
    rintro r ⟨i, b, live, lower⟩
    exact (Transaction.get?_unlocked _ _).trans (awaits.request?_addFlow live lower)
  refine ⟨fun {id f} outside live => ?_, fun {id} inside => ?_⟩
  · obtain ⟨still, same⟩ := kept outside live
    refine ⟨(flows live).trans still, fun {r} requested => ?_⟩
    obtain ⟨b, found, _⟩ := linked.routed still requested
    exact (requests ⟨r, b, found, Nat.le_refl _⟩).trans (same requested)
  · obtain ⟨f, old, b, new, b', live, requested, held, now, found, request, path, points, replaces,
      gone⟩ := earlier inside
    have older := (linked.replaced found replaces).1
    exact ⟨f, old, b, new, b', live, requested, held, (flows live).trans now,
      (requests ⟨new, b', found, Nat.le_refl _⟩).trans found, request, path, points, replaces,
      (requests ⟨new, b', found, Nat.le_of_lt older⟩).trans gone⟩

end Store

namespace Manager
open Store Transaction
variable [Quantity K] [CostModel C K] [Router R C K]

/-- The states of a manager: it starts with a network that was built from nothing, answers calls,
and may be given another such network at any time. -/
inductive Reachable : Manager R C K → Prop
  | start (id : Nat) (calls : List (BuildingCall K)) (router : R) (costs : C)
      (configuration : Option Rerouting.Configuration) :
      Reachable (.start (BuildingCall.runAll (.empty id) calls) router costs configuration)
  | run {m : Manager R C K} (reachable : Reachable m) (operation : Operation K) :
      Reachable (operation.run m).2
  | rebuild {m : Manager R C K} (reachable : Reachable m) (id : Nat)
      (calls : List (BuildingCall K)) :
      Reachable (m.updateTopology fun _ => ((), BuildingCall.runAll (.empty id) calls)).2

/-- The states of a manager that was started with these costs and this configuration. -/
inductive ReachableFrom (costs : C) (configuration : Option Rerouting.Configuration) :
    Manager R C K → Prop
  | start (id : Nat) (calls : List (BuildingCall K)) (router : R) :
      ReachableFrom costs configuration
        (.start (BuildingCall.runAll (.empty id) calls) router costs configuration)
  | run {m : Manager R C K} (reached : ReachableFrom costs configuration m)
      (operation : Operation K) : ReachableFrom costs configuration (operation.run m).2
  | rebuild {m : Manager R C K} (reached : ReachableFrom costs configuration m) (id : Nat)
      (calls : List (BuildingCall K)) :
      ReachableFrom costs configuration
        (m.updateTopology fun _ => ((), BuildingCall.runAll (.empty id) calls)).2

variable {m : Manager R C K}

theorem Reachable.sound (reachable : m.Reachable) : m.Sound := by
  induction reachable with
  | start id calls router costs configuration =>
    exact sound_start id calls router costs configuration
  | run _ operation ih => exact Operation.sound_run ih operation
  | rebuild _ id calls ih => exact ⟨ih.linked, Network.owned_runAll id calls⟩

theorem Reachable.runAll (reachable : m.Reachable) (operations : List (Operation K)) :
    (Operation.runAll m operations).Reachable := by
  induction operations generalizing m with
  | nil => exact reachable
  | cons operation rest ih => exact ih (reachable.run operation)

namespace ReachableFrom
variable {costs : C} {configuration : Option Rerouting.Configuration}

theorem reachable (reached : m.ReachableFrom costs configuration) : m.Reachable := by
  induction reached with
  | start id calls router => exact .start id calls router costs configuration
  | run _ operation ih => exact ih.run operation
  | rebuild _ id calls ih => exact ih.rebuild id calls

theorem runAll (reached : m.ReachableFrom costs configuration) (operations : List (Operation K)) :
    (Operation.runAll m operations).ReachableFrom costs configuration := by
  induction operations generalizing m with
  | nil => exact reached
  | cons operation rest ih => exact ih (reached.run operation)

end ReachableFrom

/-- A refusal with a record has moved the recorded flows: the same request on another path, under
a new number, in place of the old one. All other flows, the tenants and the machines are as they
were. Any other refusal has changed no record, no crossing, no lock and no reservation. When a
flow is created, the flows in its own record have been moved, and beyond that the flow is added to
its two machines. -/
theorem frame_createFlow (reachable : m.Reachable) (d : FlowDemand K) :
    match m.createFlow d with
    | (.error (.infeasible _ (some record)), m') =>
      Rerouted record.reconfigured m.store m'.store ∧ m'.store.locks = m.store.locks
    | (.error _, m') =>
      SameRecords m.store m'.store ∧ m'.store.locks = m.store.locks ∧ m'.costs = m.costs
    | (.ok id, m') =>
      ∃ flow, m.store.flow? id = none ∧ m'.store.flow? id = some flow ∧
        Rearranged flow.movedFor m.store m'.store ∧
        (∀ i, i ≠ id → m.store.flow? i = none → m'.store.flow? i = none) ∧
        (∀ i, m'.store.tenant? i = m.store.tenant? i) ∧
        (∀ i, m'.store.vm? i =
          if flow.source = i ∨ flow.destination = i then
            (m.store.vm? i).map (VirtualMachine.addFlow id)
          else m.store.vm? i) ∧
        m'.store.locks = m.store.locks := by
  obtain ⟨linked, owned⟩ := reachable.sound
  have admission := admission_createFlow linked owned d
  generalize m.createFlow d = result at admission
  cases admission with
  | @refused e m' plain follows same kept =>
    cases e with
    | infeasible name record =>
      cases record with
      | none => exact ⟨same, follows.locks, kept⟩
      | some record => exact absurd trivial plain
    | _ => exact ⟨same, follows.locks, kept⟩
  | blocked searched => exact ⟨searched.rerouted, searched.follows.locks⟩
  | @admitted flow s t booking v w m' searched awaits follows source destination hosts stored =>
    have before := searched.follows.trans follows
    have unused : m.store.flow? (t.begin.addFlow flow).1 = none :=
      linked.numbered .flow _ (before.next_le .flow)
    have rearranged := Rearranged.addFlow (t := t.begin) searched awaits unused
    show ∃ flow, _
    rw [stored]
    refine ⟨flow, unused, ?_, rearranged, fun i other missing => ?_, fun i => ?_, fun i => ?_, ?_⟩
    · refine (get?_unlocked _ _).trans ((t.begin.flow?_addFlow flow _).trans ?_)
      rw [if_pos rfl]
    · refine (get?_unlocked _ i).trans ((t.begin.flow?_addFlow flow i).trans ?_)
      rw [if_neg other.symm]
      exact (awaits.others .flow i nofun).trans (searched.rerouted.flows i missing)
    · refine (get?_unlocked _ i).trans ((t.begin.tenant?_addFlow flow i).trans ?_)
      exact (awaits.others .tenant i nofun).trans (searched.rerouted.tenants i)
    · refine (get?_unlocked _ i).trans ((t.begin.vm?_addFlow flow i).trans ?_)
      have same : t.begin.store.vm? i = m.store.vm? i :=
        (awaits.others .vm i nofun).trans (searched.rerouted.vms i)
      rw [same]
    · have steps := steps_addFlow flow t.begin
      exact (steps.follows_commit follows.numbered follows.mirrored).locks.trans before.locks

/-- A flow from the first machine to the second. -/
def sampleDemand (name : String) (port : UInt16) : FlowDemand ℚ where
  name
  source := ⟨0⟩
  destination := ⟨1⟩
  matching := ⟨.v4 10 0 0 1, .v4 10 0 0 2, port, 80, 6⟩
  contract := ⟨1000, 1000⟩
  latency := 10

/-- Two hosts with two links, and a flow on the first link. The router will offer the second link
to the next request that it is asked about after refusing one, and nothing after that. -/
def sampleManager : Manager Scripted (TokenBucket ℚ) ℚ :=
  Operation.runAll
    (.start
      (BuildingCall.runAll (.empty 0)
        [.host "left", .host "right", .simpleLink 0 1 1000, .simpleLink 0 1 1000])
      ⟨[some [3], none, some [5], none]⟩ .empty
      (some ⟨.allFlows, .unsorted, .queueLink, .ownPathOnly, .absolute 1, trivial⟩))
    [.createTenant "tenant", .createVm ⟨0⟩ "a" (.on ⟨0, 0⟩), .createVm ⟨0⟩ "b" (.on ⟨0, 1⟩),
      .createFlow (sampleDemand "first" 1)]

/-- The second flow finds no room even after the first one was moved to the other link. -/
theorem frame_createFlow_moved :
    (sampleManager.createFlow (sampleDemand "second" 2)).1 =
        .error (.infeasible "second" (some ⟨[⟨0⟩], [⟨0⟩], []⟩)) ∧
      sampleManager.store.Rerouted [⟨0⟩]
        (sampleManager.createFlow (sampleDemand "second" 2)).2.store := by
  have reachable : sampleManager.Reachable := (Reachable.start 0 _ _ _ _).runAll _
  have answer : (sampleManager.createFlow (sampleDemand "second" 2)).1 =
      .error (.infeasible "second" (some ⟨[⟨0⟩], [⟨0⟩], []⟩)) := by decide +kernel
  have frame := frame_createFlow reachable (sampleDemand "second" 2)
  rw [show sampleManager.createFlow (sampleDemand "second" 2) = (_, _) from
    Prod.ext answer rfl] at frame
  exact ⟨answer, frame.1⟩

end Manager
end FlowAdmission
