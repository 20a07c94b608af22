import FlowAdmission.Proofs.Store.Handles

/-!
# Dropped sessions

A session that is dropped leaves the records, the crossings and the locks as it found them and
releases nothing, however many operations it has made and in whatever order
(`Session.restores_dropped`). Only the counters may have moved on.

The store may be any that sessions can bring about, in which nothing stands under a number that was
not given out (`Session.numbered_runAll`).
-/
namespace FlowAdmission
variable {K : Type}

namespace Transaction
open Store
variable {t : Transaction K}

/-- Every operation follows the rule in the store in which it runs. -/
def Obeys (rule : Store K → Action K → Prop) (t : Transaction K) : List (Action K) → Prop
  | [] => True
  | action :: rest => rule t.store action ∧ (action.run t).Obeys rule rest

instance decidableObeys (rule : Store K → Action K → Prop) [∀ s action, Decidable (rule s action)]
    (t : Transaction K) (actions : List (Action K)) : Decidable (t.Obeys rule actions) := by
  induction actions generalizing t with
  | nil => exact .isTrue trivial
  | cons action rest ih => exact @instDecidableAnd _ _ _ (ih _)

/-- Through faithful operations the crossings stay right, and so each can be taken back. -/
theorem mirrored_of_faithful {actions : List (Action K)}
    (faithful : t.Obeys Action.Faithful actions) (numbered : t.store.Numbered)
    (mirrored : t.store.Mirrored) :
    (t.runAll actions).store.Mirrored ∧ t.Obeys Action.Reversible actions := by
  induction actions generalizing t with
  | nil => exact ⟨mirrored, trivial⟩
  | cons action rest ih =>
    obtain ⟨first, later⟩ := faithful
    obtain ⟨mirrored', reversible⟩ :=
      ih later (action.numbered numbered) (first.mirrored numbered mirrored)
    exact ⟨mirrored', first.reversible mirrored, reversible⟩

/-- The inverses of operations that can be taken back, replayed together, take all of them back. -/
theorem restored_of_reversible {actions : List (Action K)}
    (reversible : t.Obeys Action.Reversible actions) (numbered : t.store.Numbered) :
    SameRecords t.restored (t.runAll actions).restored := by
  induction actions generalizing t with
  | nil => exact .refl _
  | cons action rest ih =>
    have first := restored_run reversible.1 numbered
    exact first.trans (ih reversible.2 (action.numbered numbered))

/-- The operations are permitted one after the other. -/
def Permits (t : Transaction K) : List (Action K) → Prop
  | [] => True
  | action :: rest => action.Permitted t.store ∧ (action.run t).Permits rest

instance decidablePermits (t : Transaction K) (actions : List (Action K)) :
    Decidable (t.Permits actions) := by
  induction actions generalizing t with
  | nil => exact .isTrue trivial
  | cons action rest ih => exact @instDecidableAnd _ _ _ (ih _)

namespace Permits
variable {actions : List (Action K)}

theorem faithful (permits : t.Permits actions) : t.Obeys Action.Faithful actions := by
  induction actions generalizing t with
  | nil => trivial
  | cons action rest ih => exact ⟨permits.1.faithful, ih permits.2⟩

theorem mirrored (permits : t.Permits actions) (numbered : t.store.Numbered)
    (mirrored : t.store.Mirrored) : (t.runAll actions).store.Mirrored :=
  (mirrored_of_faithful permits.faithful numbered mirrored).1

theorem restored (permits : t.Permits actions) (numbered : t.store.Numbered)
    (mirrored : t.store.Mirrored) : SameRecords t.restored (t.runAll actions).restored :=
  restored_of_reversible (mirrored_of_faithful permits.faithful numbered mirrored).2 numbered

end Permits

theorem holds_runAll {base : List AnyHandle} (holds : t.Holds base) (actions : List (Action K)) :
    (t.runAll actions).Holds base := by
  induction actions generalizing t with
  | nil => exact holds
  | cons action rest ih => exact ih (action.holds holds)

end Transaction

namespace Session
open Transaction

/-- A session that leaves paths to `attach` and `detach` keeps the crossings in step with them. -/
theorem mirrored_kept {s : Store K} {actions : List (Action K)} (numbered : s.Numbered)
    (mirrored : s.Mirrored) (permits : s.begin.Permits actions) :
    (run s ⟨actions, true⟩).1.Mirrored := by
  have during := permits.mirrored numbered mirrored
  intro c
  simpa [run, commit, Store.request?] using during c

/-- In every store that sessions have brought about and whose crossings are those of the paths of
live requests, a dropped session leaves every record, the crossings and the locks as they were, and
releases nothing. It may give out numbers. -/
theorem restores_dropped (history : List (Session K))
    (mirrored : (runAll .empty history).Mirrored) (actions : List (Action K))
    (permits : (runAll .empty history).begin.Permits actions) :
    let s := runAll .empty history
    let (after, released) := run s ⟨actions, false⟩
    (∀ (k : Kind) (h : Handle k), after.get? h = s.get? h) ∧ after.crossings = s.crossings ∧
      after.locks = s.locks ∧ (∀ k, (s.roster k).next ≤ (after.roster k).next) ∧
      released = [] := by
  intro s
  have numbered : s.Numbered := numbered_runAll Store.numbered_empty history
  obtain ⟨same, locks⟩ := rollback_of_restored (permits.restored numbered mirrored)
    (holds_runAll (holds_begin s) actions)
  refine ⟨same.records, same.crossings, locks, fun k => ?_, rfl⟩
  exact Nat.le_trans (next_le_runAll s.begin actions k) (Nat.le_of_eq (next_rollback _ k).symm)

/-- Stores a tenant and a routed request that runs over two edges. -/
def sampleSetup : List (Action Rat) :=
  [.insert (k := .tenant) ⟨"acme", []⟩,
    .insert (k := .request) ⟨⟨0, 1, 10, 10, 1⟩, none, none, none⟩,
    .attach ⟨0⟩ [3, 5]]

/-- Frees an edge and reserves it anew, renames the tenant and removes it, and looks at a machine
that was never there. -/
def sampleActions : List (Action Rat) :=
  [.lock (k := .tenant) ⟨0⟩,
    .update (k := .tenant) ⟨0⟩ fun tenant : Tenant => { tenant with name := "umbrella" },
    .detach ⟨0⟩,
    .insert (k := .request) ⟨⟨0, 1, 20, 20, 1⟩, none, none, some ⟨0⟩⟩,
    .attach ⟨1⟩ [5, 7],
    .remove (k := .tenant) ⟨0⟩,
    .detach ⟨1⟩,
    .lock (k := .vm) ⟨4⟩]

/-- The sample session is dropped, and the tenant, the request and its crossings are back. -/
theorem restores_dropped_sample :
    let s : Store Rat := runAll .empty [⟨sampleSetup, true⟩]
    s.requestsOn 5 = [⟨0⟩] ∧ (s.begin.runAll sampleActions).store.requestsOn 5 = [] ∧
      (run s ⟨sampleActions, false⟩).1.crossings = s.crossings ∧
      (run s ⟨sampleActions, false⟩).1.get? (k := .tenant) ⟨0⟩ = some ⟨"acme", []⟩ := by
  have mirrored : (runAll (.empty : Store Rat) [⟨sampleSetup, true⟩]).Mirrored :=
    mirrored_kept Store.numbered_empty Store.mirrored_empty (by decide +kernel)
  obtain ⟨records, crossings, -⟩ :=
    restores_dropped [⟨sampleSetup, true⟩] mirrored sampleActions (by decide +kernel)
  exact ⟨by decide +kernel, by decide +kernel, crossings,
    (records .tenant ⟨0⟩).trans (by decide +kernel)⟩

end Session
end FlowAdmission
