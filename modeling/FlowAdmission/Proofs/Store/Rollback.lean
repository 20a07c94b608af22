import FlowAdmission.Proofs.Store.Steps

/-!
# Rollback

A rollback takes back everything a transaction did (`Transaction.Steps.rollback`): every record and
every crossing is as it was, and so are the locks. Only the counters stay where they are, so that
no number is given out twice (`Transaction.next_rollback`).

The inverses are right because of what the store keeps. A new record stands where nothing stood,
a request without a path crosses nothing, and a routed one crosses every edge of its path.
-/
namespace FlowAdmission
variable {K : Type} {k : Kind}

namespace Store

/-- The same records and crossings; counters and locks are not looked at. -/
structure SameRecords (s s' : Store K) : Prop where
  records : ∀ (k : Kind) (h : Handle k), s'.get? h = s.get? h
  crossings : s'.crossings = s.crossings

namespace SameRecords
variable {s s' s'' : Store K}

theorem refl (s : Store K) : SameRecords s s := ⟨fun _ _ => rfl, rfl⟩

theorem trans (first : SameRecords s s') (second : SameRecords s' s'') : SameRecords s s'' :=
  ⟨fun k h => (second.records k h).trans (first.records k h),
    second.crossings.trans first.crossings⟩

theorem put (same : SameRecords s s') (h : Handle k) (r : Record K k) :
    SameRecords (s.put h r) (s'.put h r) := by
  refine ⟨fun j i => ?_, by simpa using same.crossings⟩
  by_cases hk : j = k
  · subst hk
    rw [get?_put, get?_put, same.records]
  · rw [get?_put_of_ne _ _ _ _ hk, get?_put_of_ne _ _ _ _ hk, same.records]

theorem erase (same : SameRecords s s') (h : Handle k) :
    SameRecords (s.erase h) (s'.erase h) := by
  refine ⟨fun j i => ?_, by simpa using same.crossings⟩
  by_cases hk : j = k
  · subst hk
    rw [get?_erase, get?_erase, same.records]
  · rw [get?_erase_of_ne _ _ _ hk, get?_erase_of_ne _ _ _ hk, same.records]

theorem addCrossings (same : SameRecords s s') (id : RequestId) (path : Path) :
    SameRecords (s.addCrossings id path) (s'.addCrossings id path) := by
  refine ⟨fun j i => by simpa using same.records j i, ?_⟩
  simp only [Store.addCrossings, same.crossings]

theorem removeCrossings (same : SameRecords s s') (id : RequestId) (path : Path) :
    SameRecords (s.removeCrossings id path) (s'.removeCrossings id path) := by
  refine ⟨fun j i => by simpa using same.records j i, ?_⟩
  simp only [Store.removeCrossings, same.crossings]

/-- Stores with the same records hold the same paths. -/
theorem outstanding (same : SameRecords s s') : s'.outstanding = s.outstanding := by
  refine outstanding_congr (Std.ExtTreeMap.ext_getElem? fun i => ?_)
  exact same.records .request ⟨i⟩

theorem mirrored (same : SameRecords s s') (before : s.Mirrored) : s'.Mirrored := by
  intro c
  have looked : s'.request? c.request = s.request? c.request := same.records .request c.request
  rw [same.crossings, looked]
  exact before c

/-- Counters that have only moved on stay beyond every record. -/
theorem numbered (same : SameRecords s s') (before : s.Numbered)
    (next_le : ∀ j, (s.roster j).next ≤ (s'.roster j).next) : s'.Numbered := by
  intro j i beyond
  rw [same.records]
  have later := next_le j
  exact before j i (by omega)

end SameRecords

/-- What the end of a transaction keeps: locks are back where they were, and numbers go on. -/
structure Follows (s s' : Store K) : Prop where
  numbered : s'.Numbered
  mirrored : s'.Mirrored
  locks : s'.locks = s.locks
  next_le : ∀ j, (s.roster j).next ≤ (s'.roster j).next

theorem Follows.refl {s : Store K} (numbered : s.Numbered) (mirrored : s.Mirrored) :
    Follows s s :=
  ⟨numbered, mirrored, rfl, fun _ => Nat.le_refl _⟩

theorem Follows.trans {s s' s'' : Store K} (first : Follows s s') (second : Follows s' s'') :
    Follows s s'' :=
  ⟨second.numbered, second.mirrored, second.locks.trans first.locks,
    fun j => Nat.le_trans (first.next_le j) (second.next_le j)⟩

/-- A record that is taken out and put back is as it was. -/
theorem sameRecords_put_of_get? {s s' : Store K} {h : Handle k} {r : Record K k}
    (found : s.get? h = some r) (elsewhere : SameRecords (s.erase h) (s'.erase h)) :
    SameRecords s (s'.put h r) := by
  refine ⟨fun j i => ?_, by simpa using elsewhere.crossings⟩
  have other := elsewhere.records j i
  by_cases hk : j = k
  · subst hk
    rw [get?_erase, get?_erase] at other
    rw [get?_put]
    by_cases hi : h = i
    · subst hi
      rw [if_pos rfl, found]
    · rw [if_neg hi]
      rwa [if_neg hi, if_neg hi] at other
  · rw [get?_erase_of_ne _ _ _ hk, get?_erase_of_ne _ _ _ hk] at other
    rwa [get?_put_of_ne _ _ _ _ hk]

theorem sameRecords_erase_put (s : Store K) (h : Handle k) (r : Record K k) :
    SameRecords (s.erase h) ((s.put h r).erase h) := by
  refine ⟨fun j i => ?_, by simp⟩
  by_cases hk : j = k
  · subst hk
    rw [get?_erase, get?_erase, get?_put]
    by_cases hi : h = i <;> simp [hi]
  · rw [get?_erase_of_ne _ _ _ hk, get?_erase_of_ne _ _ _ hk, get?_put_of_ne _ _ _ _ hk]

theorem sameRecords_erase_erase (s : Store K) (h : Handle k) :
    SameRecords (s.erase h) ((s.erase h).erase h) := by
  refine ⟨fun j i => ?_, by simp⟩
  by_cases hk : j = k
  · subst hk
    simp only [get?_erase]
    by_cases hi : h = i <;> simp [hi]
  · simp only [get?_erase_of_ne _ _ _ hk]

end Store

namespace Undo
open Store

/-- An inverse does the same to stores with the same records. -/
theorem apply_sameRecords {s s' : Store K} (undo : Undo K) (same : SameRecords s s') :
    SameRecords (undo.apply s) (undo.apply s') := by
  cases undo with
  | discard k h => exact same.erase h
  | restore k h before => exact same.put h before
  | detach id path =>
    have struck := same.removeCrossings id path
    have looked : (s'.removeCrossings id path).request? id =
        (s.removeCrossings id path).request? id := struck.records .request id
    simp only [apply, looked]
    split
    · exact struck
    · exact struck.put id _
  | reattach id before =>
    cases hp : before.path with
    | none => simpa only [apply, hp] using same.put id before
    | some path => simpa only [apply, hp] using (same.addCrossings id path).put id before

theorem apply_all {s s' : Store K} (undos : List (Undo K)) (same : SameRecords s s') :
    SameRecords (undos.foldl apply s) (undos.foldl apply s') := by
  induction undos generalizing s s' with
  | nil => exact same
  | cons undo rest ih => exact ih (undo.apply_sameRecords same)

theorem locks_apply (undo : Undo K) (s : Store K) : (undo.apply s).locks = s.locks := by
  cases undo with
  | discard k h => exact locks_setRoster _ _
  | restore k h before => exact locks_setRoster _ _
  | detach id path =>
    simp only [apply]
    split
    · rfl
    · exact locks_setRoster _ _
  | reattach id before =>
    apply (locks_setRoster _ _).trans
    cases before.path <;> rfl

theorem next_apply (undo : Undo K) (s : Store K) (j : Kind) :
    ((undo.apply s).roster j).next = (s.roster j).next := by
  cases undo with
  | discard k h => exact next_erase _ _ _
  | restore k h before => exact next_put _ _ _ _
  | detach id path =>
    simp only [apply]
    split <;> simp
  | reattach id before =>
    apply (next_put _ _ _ _).trans
    cases before.path <;> simp

end Undo

namespace Transaction
open Store

/-- The store after the inverses so far. -/
def restored (t : Transaction K) : Store K := t.undos.foldl Undo.apply t.store

theorem get?_rollback (t : Transaction K) {k : Kind} (h : Handle k) :
    t.rollback.get? h = t.restored.get? h := Store.get?_withLocks _ _ _

theorem restored_log {t : Transaction K} (store : Store K) (undo : Undo K)
    (inverse : SameRecords t.store (undo.apply store)) :
    SameRecords t.restored (t.log store undo).restored :=
  Undo.apply_all t.undos inverse

theorem locks_restored (t : Transaction K) : t.restored.locks = t.store.locks := by
  have kept : ∀ (undos : List (Undo K)) (s : Store K),
      (undos.foldl Undo.apply s).locks = s.locks := by
    intro undos
    induction undos with
    | nil => exact fun _ => rfl
    | cons undo rest ih => exact fun s => (ih _).trans (undo.locks_apply s)
  exact kept t.undos t.store

theorem next_rollback (t : Transaction K) (j : Kind) :
    (t.rollback.roster j).next = (t.store.roster j).next := by
  have kept : ∀ (undos : List (Undo K)) (s : Store K),
      ((undos.foldl Undo.apply s).roster j).next = (s.roster j).next := by
    intro undos
    induction undos with
    | nil => exact fun _ => rfl
    | cons undo rest ih => exact fun s => (ih _).trans (undo.next_apply s j)
  unfold rollback
  rw [roster_unlocked]
  exact kept t.undos t.store

variable {t : Transaction K}

theorem restored_lock {k : Kind} (h : Handle k) : SameRecords t.restored (t.lock h).restored := by
  have undos : (t.lock h).undos = t.undos := by
    unfold Transaction.lock
    split <;> rfl
  unfold Transaction.restored
  rw [undos]
  exact Undo.apply_all t.undos ⟨fun _ _ => by simp, by simp⟩

theorem restored_insert (numbered : t.store.Numbered) {k : Kind} (r : Record K k) :
    SameRecords t.restored (t.insert r).2.restored := by
  refine restored_log _ (.discard k (t.insert r).1) ⟨fun j i => ?_, by simp [Undo.apply]⟩
  by_cases hk : j = k
  · subst hk
    have fresh : t.store.get? (t.insert r).1 = none := numbered _ _ (Nat.le_refl _)
    simp only [Undo.apply, get?_erase]
    by_cases hi : (t.insert r).1 = i
    · rw [if_pos hi, ← hi, fresh]
    · rw [if_neg hi]
      exact (t.get?_insert r i).trans (if_neg hi)
  · simp only [Undo.apply, get?_erase_of_ne _ _ _ hk]
    exact t.get?_insert_of_ne r i hk

theorem restored_update {k : Kind} (h : Handle k) (change : Record K k → Record K k) :
    SameRecords t.restored (t.update h change).restored := by
  unfold Transaction.update
  cases found : t.store.get? h with
  | none => exact .refl _
  | some before =>
    exact restored_log _ _ (sameRecords_put_of_get? found (sameRecords_erase_put t.store h _))

theorem restored_remove {k : Kind} (h : Handle k) :
    SameRecords t.restored (t.remove h).restored := by
  rcases t.remove_cases h with same | ⟨before, _, found, removed⟩
  · rw [same]
    exact .refl _
  · rw [removed]
    exact restored_log _ _ (sameRecords_put_of_get? found (sameRecords_erase_erase t.store h))

/-- What was not crossed before is struck off again. -/
theorem restored_attach {id : RequestId} {path : Path}
    (reversible : (Action.attach id path).Reversible t.store) :
    SameRecords t.restored (t.attach id path).restored := by
  unfold Transaction.attach
  cases live : t.store.request? id with
  | none => exact .refl _
  | some b =>
    obtain ⟨bare, uncrossed⟩ := reversible b live
    simp only
    apply restored_log _ _
    have looked : ((t.store.put id { b with path := some path }).addCrossings id path
        |>.removeCrossings id path).request? id = some { b with path := some path } := by
      simp [request?, get?_put]
    simp only [Undo.apply, looked]
    refine sameRecords_put_of_get? (k := .request) ?_
      ⟨(sameRecords_erase_put t.store id _).records, Std.ExtTreeSet.ext_mem fun c => ?_⟩
    · rw [← bare]
      exact live
    · have new : c.edge ∈ path ∧ c.request = id → c ∉ t.store.crossings := by
        rintro ⟨on_path, rfl⟩
        exact uncrossed c.edge on_path
      simp only [crossings_erase, mem_crossings_removeCrossings, mem_crossings_addCrossings,
        crossings_put]
      grind

/-- A routed request crosses every edge of its path, so nothing new is entered. -/
theorem restored_detach {id : RequestId} (reversible : (Action.detach id).Reversible t.store) :
    SameRecords t.restored (t.detach id).restored := by
  unfold Transaction.detach
  cases live : t.store.request? id with
  | none => exact .refl _
  | some b =>
    cases hp : b.path with
    | none =>
      simp only [hp]
      apply restored_log _ _
      simp only [Undo.apply, hp]
      exact sameRecords_put_of_get? live (sameRecords_erase_erase t.store id)
    | some path =>
      simp only [hp]
      apply restored_log ((t.store.erase id).removeCrossings id path) (.reattach id b)
      simp only [Undo.apply, hp]
      refine sameRecords_put_of_get? live
        ⟨(sameRecords_erase_erase t.store id).records, Std.ExtTreeSet.ext_mem fun c => ?_⟩
      have crossed : c.edge ∈ path ∧ c.request = id → c ∈ t.store.crossings := by
        rintro ⟨on_path, rfl⟩
        exact reversible b live c.edge (by rwa [hp])
      simp only [crossings_erase, mem_crossings_removeCrossings, mem_crossings_addCrossings]
      grind

/-- An operation that can be taken back is taken back by its inverse. That of a change puts the
whole record back, whatever the change was. -/
theorem restored_run {action : Action K} (reversible : action.Reversible t.store)
    (numbered : t.store.Numbered) : SameRecords t.restored (action.run t).restored := by
  cases action with
  | lock h => exact restored_lock h
  | insert r => exact restored_insert numbered r
  | update h change => exact restored_update h change
  | remove h => exact restored_remove h
  | attach id path => exact restored_attach reversible
  | detach id => exact restored_detach reversible

/-- The inverses take and release no lock, so a rollback leaves the locks that a commit leaves. -/
theorem locks_rollback {base : List AnyHandle} {t : Transaction K} (holds : t.Holds base) :
    t.rollback.locks = base := by
  have replayed : Holds base { t with store := t.restored } := (locks_restored t).trans holds
  exact locks_unlocked replayed

/-- When all that was done is undone, the locks that were taken go too. -/
theorem rollback_of_restored {s : Store K} {t : Transaction K} (same : SameRecords s t.restored)
    (holds : t.Holds s.locks) : SameRecords s t.rollback ∧ t.rollback.locks = s.locks := by
  refine ⟨⟨fun k h => ?_, same.crossings⟩, locks_rollback holds⟩
  exact (get?_rollback t h).trans (same.records k h)

namespace Steps
variable {xs : List (Path × Request K)} {t t' : Transaction K} {s : Store K}

theorem restored (steps : Steps xs t t') (numbered : t.store.Numbered)
    (mirrored : t.store.Mirrored) : SameRecords t.restored t'.restored := by
  induction steps with
  | refl => exact .refl _
  | tail earlier step ih =>
    obtain ⟨action, permitted, rfl⟩ := step.exists_action
    have reversible := permitted.faithful.reversible (earlier.mirrored numbered mirrored)
    have last := restored_run reversible (earlier.numbered numbered)
    exact (ih numbered mirrored).trans last

/-- A rollback leaves the records, the crossings and the locks as they were. -/
theorem rollback (steps : Steps xs s.begin t) (numbered : s.Numbered) (mirrored : s.Mirrored) :
    SameRecords s t.rollback ∧ t.rollback.locks = s.locks :=
  rollback_of_restored (steps.restored numbered mirrored) (steps.holds (holds_begin s))

/-- A commit keeps what the store relies on. -/
theorem follows_commit (steps : Steps xs s.begin t) (numbered : s.Numbered)
    (mirrored : s.Mirrored) : Follows s t.unlocked := by
  have before : s.begin.store.Numbered := numbered
  refine ⟨fun k h => ?_, fun c => ?_, locks_unlocked (steps.holds (holds_begin s)), fun j => ?_⟩
  · simpa using steps.numbered before k h
  · simpa [request?] using steps.mirrored before mirrored c
  · rw [roster_unlocked]
    exact steps.next_le j

/-- A rollback leaves every record and crossing as it was. -/
theorem follows_rollback (steps : Steps xs s.begin t) (numbered : s.Numbered)
    (mirrored : s.Mirrored) : Follows s t.rollback ∧ SameRecords s t.rollback := by
  obtain ⟨same, locks⟩ := steps.rollback numbered mirrored
  have next_le : ∀ j, (s.roster j).next ≤ (t.rollback.roster j).next := by
    intro j
    rw [next_rollback]
    exact steps.next_le j
  exact ⟨⟨same.numbered numbered next_le, same.mirrored mirrored, locks, next_le⟩, same⟩

end Steps
end Transaction
end FlowAdmission
