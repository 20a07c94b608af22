import FlowAdmission.Proofs.Manager.Frames
import FlowAdmission.Proofs.Store.Sessions
import Mathlib.Data.Finset.Card
import Mathlib.Data.Finset.Dedup

/-!
# Read locks

Whatever a transaction does, the locks of the store are the records under which it has found
something to read, each counted once, and its end gives all of them back. So no call to a manager
leaves a lock, whichever way it answers (`Manager.locks_balanced`).

A record keeps its lock when it is changed or removed. That is why the locks follow the reads that
found something (`Transaction.found`) and not the records that are still there.
-/
namespace FlowAdmission
variable {K : Type}

/-- The handle of the record that a read finds, and with it locks. -/
def Action.found? (s : Store K) : Action K → Option AnyHandle
  | .lock h => if s.contains h then some h.any else none
  | .insert _ | .update _ _ | .remove _ | .attach _ _ | .detach _ => none

namespace Transaction
variable {t : Transaction K} {base seen : List AnyHandle}

/-- The handles under which the reads among some operations have found a record, once for every
such read. -/
def found (t : Transaction K) : List (Action K) → List AnyHandle
  | [] => []
  | action :: rest => (action.found? t.store).toList ++ (action.run t).found rest

/-- The locks that a transaction took are those of the records found, each taken once, on top of
the `base`. -/
structure Locked (base seen : List AnyHandle) (t : Transaction K) : Prop where
  holds : t.Holds base
  nodup : t.held.Nodup
  mem_held : ∀ h, h ∈ t.held ↔ h ∈ seen

theorem locked_begin (s : Store K) : s.begin.Locked s.locks [] :=
  ⟨holds_begin s, .nil, fun _ => .rfl⟩

/-- Only a read that finds its record takes a lock, and none that is held already. -/
theorem held_run (t : Transaction K) (action : Action K) :
    (action.run t).held =
      (action.found? t.store).elim t.held fun h => t.held.insert h := by
  cases action with
  | lock h =>
    simp only [Action.run, Action.found?]
    unfold lock
    by_cases live : t.store.contains h <;> by_cases held : h.any ∈ t.held <;> simp [live, held]
  | insert record => rfl
  | update h change =>
    simp only [Action.run]
    unfold update
    split <;> rfl
  | remove h =>
    simp only [Action.run]
    rcases t.remove_cases h with same | ⟨_, _, _, removed⟩
    · rw [same]
      rfl
    · rw [removed]
      rfl
  | attach id path =>
    simp only [Action.run]
    unfold attach
    split <;> rfl
  | detach id =>
    simp only [Action.run]
    unfold detach
    split
    · rfl
    · split <;> rfl

namespace Locked

theorem run (locked : t.Locked base seen) (action : Action K) :
    (action.run t).Locked base (seen ++ (action.found? t.store).toList) := by
  have held := t.held_run action
  refine ⟨action.holds locked.holds, ?_, fun h => ?_⟩
  · rw [held]
    cases action.found? t.store with
    | none => exact locked.nodup
    | some new => exact locked.nodup.insert
  · rw [held, List.mem_append, ← locked.mem_held]
    cases action.found? t.store with
    | none => simp
    | some new => simp [or_comm]

theorem runAll (locked : t.Locked base seen) (actions : List (Action K)) :
    (t.runAll actions).Locked base (seen ++ t.found actions) := by
  induction actions generalizing t seen with
  | nil => simpa [Transaction.runAll, Transaction.found] using locked
  | cons action rest ih =>
    have later := ih (locked.run action)
    rwa [List.append_assoc] at later

/-- Where nothing was locked before, the locks are counted by the records found. -/
theorem lockCount (locked : t.Locked [] seen) : t.store.lockCount = seen.toFinset.card := by
  have own : t.store.locks = t.held := locked.holds.trans (List.append_nil _)
  have same : t.held.toFinset = seen.toFinset := List.toFinset.ext locked.mem_held
  rw [Store.lockCount, own, ← same, List.toFinset_card_of_nodup locked.nodup]

theorem isLocked_iff (locked : t.Locked [] seen) {k : Kind} (h : Handle k) :
    t.store.isLocked h ↔ h.any ∈ seen := by
  have own : t.store.locks = t.held := locked.holds.trans (List.append_nil _)
  rw [Store.isLocked, own, List.contains_iff_mem, locked.mem_held]

end Locked

end Transaction

/-- Both ends of a session leave the locks that were held before it. -/
theorem Session.locks_run (s : Store K) (session : Session K) :
    (session.run s).1.locks = s.locks := by
  have holds := Transaction.holds_runAll (Transaction.holds_begin s) session.actions
  unfold run
  dsimp only
  split
  · exact Transaction.locks_unlocked holds
  · exact Transaction.locks_rollback holds

variable {R C : Type}

namespace Manager
open Store Transaction
variable [CostModel C K] {m : Manager R C K}

/-- A call that runs one transaction leaves the locks alone, also when it refuses. -/
theorem locks_attempt {α : Type} {body : Transaction K → Except Error α × Transaction K}
    {xs : List (Path × Request K)} (steps : Steps xs m.store.begin (body m.store.begin).2) :
    (m.attempt body).2.store.locks = m.store.locks := by
  have holds := steps.holds (holds_begin m.store)
  unfold attempt
  split <;> rename_i answered <;> rw [answered] at holds
  · exact locks_unlocked holds
  · exact locks_rollback holds

variable [Quantity K] [Router R C K]

theorem locks_createFlow (sound : m.Sound) (d : FlowDemand K) :
    (m.createFlow d).2.store.locks = m.store.locks := by
  have admission := admission_createFlow sound.linked sound.owned d
  generalize m.createFlow d = result at admission ⊢
  cases admission with
  | refused plain follows same kept => exact follows.locks
  | blocked searched => exact searched.follows.locks
  | @admitted flow s t booking v w m' searched awaits follows source destination hosts stored =>
    have steps := steps_addFlow flow t.begin
    have after : (t.begin.addFlow flow).2.unlocked.locks = t.locks :=
      locks_unlocked (steps.holds (holds_begin t))
    show m'.store.locks = m.store.locks
    rw [stored, after, follows.locks, searched.follows.locks]

theorem locks_run (sound : m.Sound) (operation : Operation K) :
    (operation.run m).2.store.locks = m.store.locks := by
  have deletion : ∀ {xs} {t : Transaction K}, Steps xs m.store.begin t →
      t.unlocked.locks = m.store.locks := fun steps =>
    locks_unlocked (steps.holds (holds_begin m.store))
  cases operation with
  | createTenant name =>
    show (m.createTenant name).2.store.locks = _
    unfold createTenant
    split
    · rfl
    · exact locks_attempt (steps_addTenant name _)
  | createVm tenant name placement =>
    show (m.createVm tenant name placement).2.store.locks = _
    unfold createVm
    split
    · rfl
    · split
      · rfl
      · exact locks_attempt (steps_addVm m.network tenant name placement _)
  | setConnection vm connection => exact locks_attempt (steps_setConnection vm connection _)
  | createFlow demand => exact locks_createFlow sound demand
  | deleteFlow flow => exact deletion (steps_removeFlow _ flow)
  | deleteVm vm => exact deletion (steps_removeVm _ vm)
  | deleteTenant tenant => exact deletion (steps_removeTenant _ tenant)
  | extendTopology calls => rfl

theorem Reachable.locks (reachable : m.Reachable) : m.store.locks = [] := by
  induction reachable with
  | start id calls router costs configuration => rfl
  | run reachable operation ih => exact (locks_run reachable.sound operation).trans ih
  | rebuild _ id calls ih => exact ih

/-- Reads a tenant twice, a request with the same number and a machine that is not there, and
removes the tenant and the request before it reads them once more. -/
def sampleReads : List (Action ℚ) :=
  [.lock (k := .tenant) ⟨0⟩, .lock (k := .request) ⟨0⟩, .lock (k := .tenant) ⟨0⟩,
    .lock (k := .vm) ⟨4⟩, .remove (k := .tenant) ⟨0⟩, .detach ⟨0⟩,
    .lock (k := .tenant) ⟨0⟩, .lock (k := .request) ⟨0⟩]

end Manager
end FlowAdmission
