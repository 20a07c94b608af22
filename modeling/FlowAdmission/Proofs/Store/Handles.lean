import FlowAdmission.Proofs.Store.Rollback

/-!
# Handles

A handle is given out once and names one record for good (`Session.handles_once`). Over any number
of sessions, each kept or dropped, no two insertions give out the same handle, and a record that is
gone when a session has ended is gone after all later ones.

The counters are the one thing that a rollback leaves where it is. So the handles that were given
out are those between two positions of the counters, each once (`Store.Issues`). That a lost record
does not come back rests on the inverses: each is about one record only
(`Undo.get?_apply_of_ne`), which was there or was new when the inverse was logged
(`Transaction.undos_run`). A record that was neither is in no inverse (`Transaction.Lost`).
-/
namespace FlowAdmission
variable {K : Type}

theorem Handle.any_inj {k : Kind} {h i : Handle k} : h.any = i.any ↔ h = i := by
  cases h
  cases i
  simp [Handle.any]

namespace Store
variable {s s' s'' : Store K} {k : Kind}

theorem get?_put_of_any_ne {j : Kind} {h : Handle k} {i : Handle j} (r : Record K k)
    (other : h.any ≠ i.any) : (s.put h r).get? i = s.get? i := by
  by_cases hk : j = k
  · subst hk
    rw [get?_put, if_neg fun same => other (Handle.any_inj.mpr same)]
  · exact get?_put_of_ne _ _ _ _ hk

theorem get?_erase_of_any_ne {j : Kind} {h : Handle k} {i : Handle j} (other : h.any ≠ i.any) :
    (s.erase h).get? i = s.get? i := by
  by_cases hk : j = k
  · subst hk
    rw [get?_erase, if_neg fun same => other (Handle.any_inj.mpr same)]
  · exact get?_erase_of_ne _ _ _ hk

/-- The handles given out on the way from one store to another: those from the old counters up to
the new ones, each once. -/
structure Issues (s s' : Store K) (issued : List AnyHandle) : Prop where
  next_le : ∀ k, (s.roster k).next ≤ (s'.roster k).next
  mem_iff : ∀ h, h ∈ issued ↔
    (s.roster h.kind).next ≤ h.index ∧ h.index < (s'.roster h.kind).next
  nodup : issued.Nodup

namespace Issues

/-- Where no counter moves, nothing is given out. -/
theorem nil (same : ∀ k, (s'.roster k).next = (s.roster k).next) : Issues s s' [] := by
  refine ⟨fun k => Nat.le_of_eq (same k).symm, fun h => ?_, .nil⟩
  rw [same]
  simp

theorem append {first second : List AnyHandle} (earlier : Issues s s' first)
    (later : Issues s' s'' second) : Issues s s'' (first ++ second) := by
  refine ⟨fun k => Nat.le_trans (earlier.next_le k) (later.next_le k), fun h => ?_,
    List.nodup_append.mpr ⟨earlier.nodup, later.nodup, ?_⟩⟩
  · have before := earlier.next_le h.kind
    have after := later.next_le h.kind
    rw [List.mem_append, earlier.mem_iff, later.mem_iff]
    omega
  · rintro h old _ new rfl
    have below := ((earlier.mem_iff h).mp old).2
    have beyond := ((later.mem_iff h).mp new).1
    omega

end Issues

end Store

namespace Undo
open Store

/-- The handle of the one record that the inverse changes. -/
def target : Undo K → AnyHandle
  | discard _ h | restore _ h _ => h.any
  | detach id _ | reattach id _ => id.any

/-- The inverse names a handle that was given out. -/
def Given (s : Store K) : Undo K → Prop
  | .discard k h | .restore k h _ => h.index < (s.roster k).next
  | .detach id _ | .reattach id _ => id.index < (s.roster .request).next

theorem given_iff {undo : Undo K} {s : Store K} :
    undo.Given s ↔ undo.target.index < (s.roster undo.target.kind).next := by
  cases undo <;> exact .rfl

theorem Given.mono {undo : Undo K} {s s' : Store K} (given : undo.Given s)
    (next_le : ∀ j, (s.roster j).next ≤ (s'.roster j).next) : undo.Given s' :=
  given_iff.mpr (Nat.lt_of_lt_of_le (given_iff.mp given) (next_le _))

/-- An inverse leaves the records alone that it is not about. -/
theorem get?_apply_of_ne {undo : Undo K} (s : Store K) {k : Kind} {h : Handle k}
    (other : undo.target ≠ h.any) : (undo.apply s).get? h = s.get? h := by
  cases undo with
  | discard _ i => exact get?_erase_of_any_ne other
  | restore _ i before => exact get?_put_of_any_ne before other
  | detach id path =>
    simp only [apply]
    split
    · exact get?_removeCrossings s id path h
    · exact (get?_put_of_any_ne _ other).trans (get?_removeCrossings s id path h)
  | reattach id before =>
    apply (get?_put_of_any_ne _ other).trans
    cases before.path with
    | none => rfl
    | some path => exact get?_addCrossings s id path h

theorem get?_foldl_of_ne {undos : List (Undo K)} (s : Store K) {k : Kind} {h : Handle k}
    (others : ∀ undo ∈ undos, undo.target ≠ h.any) :
    (undos.foldl apply s).get? h = s.get? h := by
  induction undos generalizing s with
  | nil => rfl
  | cons undo rest ih =>
    obtain ⟨first, later⟩ := List.forall_mem_cons.mp others
    exact (ih (undo.apply s) later).trans (get?_apply_of_ne s first)

end Undo

/-- The handle that an operation gives out, which only an insertion does. -/
def Action.issued? (t : Transaction K) : Action K → Option AnyHandle
  | .insert record => some (t.insert record).1.any
  | .lock _ | .update _ _ | .remove _ | .attach _ _ | .detach _ => none

/-- The handles that operations give out, in the order of the insertions. -/
def Transaction.issued (t : Transaction K) : List (Action K) → List AnyHandle
  | [] => []
  | action :: rest => (action.issued? t).toList ++ (action.run t).issued rest

/-- The handles that sessions give out, those of dropped sessions included. -/
def Session.issued (s : Store K) : List (Session K) → List AnyHandle
  | [] => []
  | session :: rest => s.begin.issued session.actions ++ issued (session.run s).1 rest

namespace Transaction
open Store
variable {t : Transaction K} {k : Kind} {h : Handle k}

theorem issues_run (t : Transaction K) (action : Action K) :
    Issues t.store (action.run t).store (action.issued? t).toList := by
  cases action with
  | @insert k record =>
    refine ⟨(Action.insert record).next_le t, fun ⟨j, n⟩ => ?_, by simp [Action.issued?]⟩
    have number : (t.insert record).1.any = ⟨k, (t.store.roster k).next⟩ := rfl
    simp only [Action.issued?, Action.run, Option.toList_some, List.mem_singleton, number,
      AnyHandle.mk.injEq, next_insert]
    by_cases hk : j = k
    · subst hk
      simp only [true_and, if_true, Nat.lt_succ_iff]
      rw [and_comm, ← Nat.le_antisymm_iff]
    · simp only [hk, false_and, if_false, Nat.add_zero, false_iff]
      exact fun between => Nat.not_lt.mpr between.1 between.2
  | _ => exact .nil fun j => by simp [Action.run]

theorem issues_runAll (t : Transaction K) (actions : List (Action K)) :
    Issues t.store (t.runAll actions).store (t.issued actions) := by
  induction actions generalizing t with
  | nil => exact .nil fun _ => rfl
  | cons action rest ih => exact (t.issues_run action).append (ih _)

/-- An operation logs nothing, or an inverse about a record that is there or is new. -/
theorem undos_run (t : Transaction K) (action : Action K) :
    (action.run t).undos = t.undos ∨ ∃ undo, (action.run t).undos = undo :: t.undos ∧
      (t.store.contains (k := undo.target.kind) ⟨undo.target.index⟩ ∨
        undo.target ∈ action.issued? t) := by
  cases action with
  | lock h =>
    simp only [Action.run]
    unfold Transaction.lock
    split <;> exact .inl rfl
  | @insert k record => exact .inr ⟨.discard k (t.insert record).1, rfl, .inr rfl⟩
  | @update k h change =>
    simp only [Action.run]
    unfold Transaction.update
    cases found : t.store.get? h with
    | none => exact .inl rfl
    | some before => exact .inr ⟨_, rfl, .inl (Option.isSome_of_eq_some found)⟩
  | @remove k h =>
    simp only [Action.run]
    rcases t.remove_cases h with same | ⟨before, _, found, removed⟩
    · exact .inl (by rw [same])
    · rw [removed]
      exact .inr ⟨_, rfl, .inl (Option.isSome_of_eq_some found)⟩
  | attach id path =>
    simp only [Action.run]
    unfold Transaction.attach
    cases found : t.store.request? id with
    | none => exact .inl rfl
    | some b => exact .inr ⟨_, rfl, .inl (Option.isSome_of_eq_some found)⟩
  | detach id =>
    simp only [Action.run]
    unfold Transaction.detach
    cases found : t.store.request? id with
    | none => exact .inl rfl
    | some b =>
      refine .inr ⟨.reattach id b, ?_, .inl (Option.isSome_of_eq_some found)⟩
      cases hp : b.path <;> simp [hp, log]

/-- The log only grows. -/
theorem undos_runAll (t : Transaction K) (actions : List (Action K)) :
    ∃ newer, (t.runAll actions).undos = newer ++ t.undos := by
  induction actions generalizing t with
  | nil => exact ⟨[], rfl⟩
  | cons action rest ih =>
    obtain ⟨newer, logged⟩ := ih (action.run t)
    have grown : (t.runAll (action :: rest)).undos = newer ++ (action.run t).undos := logged
    rcases t.undos_run action with same | ⟨undo, own, -⟩
    · exact ⟨newer, by rw [grown, same]⟩
    · exact ⟨newer ++ [undo], by rw [grown, own, List.append_assoc, List.singleton_append]⟩

/-- Records and inverses keep to the numbers that were given out. -/
structure Orderly (t : Transaction K) : Prop where
  numbered : t.store.Numbered
  given : ∀ undo ∈ t.undos, undo.Given t.store

namespace Orderly

theorem run (orderly : t.Orderly) (action : Action K) : (action.run t).Orderly := by
  have issues := t.issues_run action
  have older : ∀ undo ∈ t.undos, undo.Given (action.run t).store :=
    fun undo logged => (orderly.given undo logged).mono issues.next_le
  refine ⟨action.numbered orderly.numbered, ?_⟩
  rcases t.undos_run action with same | ⟨undo, logged, live | new⟩
  · rw [same]
    exact older
  · obtain ⟨record, found⟩ := Option.isSome_iff_exists.mp live
    have given : undo.Given t.store := Undo.given_iff.mpr (orderly.numbered.lt_next found)
    rw [logged]
    exact List.forall_mem_cons.mpr ⟨given.mono issues.next_le, older⟩
  · have given := ((issues.mem_iff undo.target).mp (Option.mem_toList.mpr new)).2
    rw [logged]
    exact List.forall_mem_cons.mpr ⟨Undo.given_iff.mpr given, older⟩

theorem runAll (orderly : t.Orderly) (actions : List (Action K)) :
    (t.runAll actions).Orderly := by
  induction actions generalizing t with
  | nil => exact orderly
  | cons action rest ih => exact ih (orderly.run action)

/-- Inverses of all kinds together put nothing under a number that was not given out. -/
theorem numbered_rollback (orderly : t.Orderly) : t.rollback.Numbered := by
  intro k h beyond
  rw [next_rollback] at beyond
  have others : ∀ undo ∈ t.undos, undo.target ≠ h.any := by
    intro undo logged same
    have given := Undo.given_iff.mp (orderly.given undo logged)
    rw [same] at given
    exact Nat.not_lt.mpr beyond given
  rw [get?_rollback, restored, Undo.get?_foldl_of_ne _ others, orderly.numbered k h beyond]

/-- What was inserted is taken away again: its `discard` stands in the log on top of inverses that
are all about older records. -/
theorem get?_restored_of_issued (orderly : t.Orderly) {actions : List (Action K)}
    (issued : h.any ∈ t.issued actions) : (t.runAll actions).restored.get? h = none := by
  induction actions generalizing t with
  | nil => cases issued
  | cons action rest ih =>
    rcases List.mem_append.mp issued with now | later
    · cases action with
      | @insert j record =>
        have number : h.any = (t.insert record).1.any := List.mem_singleton.mp now
        obtain ⟨newer, logged⟩ := (t.insert record).2.undos_runAll rest
        have older : ∀ undo ∈ t.undos, undo.target ≠ h.any := by
          intro undo old same
          have given := Undo.given_iff.mp (orderly.given undo old)
          rw [same, number] at given
          exact Nat.lt_irrefl _ given
        have taken : (t.runAll (.insert record :: rest)).restored =
            t.undos.foldl Undo.apply (Store.erase
              (newer.foldl Undo.apply ((t.insert record).2.runAll rest).store)
              (t.insert record).1) := by
          show ((t.insert record).2.runAll rest).undos.foldl Undo.apply _ = _
          rw [logged, List.foldl_append]
          rfl
        obtain rfl : k = j := congrArg AnyHandle.kind number
        have new : h = (t.insert record).1 := Handle.any_inj.mp number
        rw [taken, Undo.get?_foldl_of_ne _ older, get?_erase, if_pos new.symm]
      | lock | update | remove | attach | detach => cases now
    · exact ih (orderly.run action) later

end Orderly

/-- A record that is lost for good: its number was given out, nothing stands under it, and no
inverse is about it. -/
structure Lost (t : Transaction K) (h : Handle k) : Prop where
  given : h.index < (t.store.roster k).next
  absent : t.store.get? h = none
  unlogged : ∀ undo ∈ t.undos, undo.target ≠ h.any

namespace Lost

theorem run (lost : t.Lost h) (action : Action K) : (action.run t).Lost h := by
  refine ⟨Nat.lt_of_lt_of_le lost.given (action.next_le t k),
    action.absent lost.absent (.inl lost.given), ?_⟩
  rcases t.undos_run action with same | ⟨undo, logged, about⟩
  · rw [same]
    exact lost.unlogged
  · rw [logged]
    refine List.forall_mem_cons.mpr ⟨fun same => ?_, lost.unlogged⟩
    rw [same] at about
    rcases about with live | new
    · have found : (t.store.get? h).isSome := live
      rw [lost.absent] at found
      cases found
    · have fresh := ((t.issues_run action).mem_iff h.any).mp (Option.mem_toList.mpr new)
      exact Nat.not_lt.mpr fresh.1 lost.given

theorem runAll (lost : t.Lost h) (actions : List (Action K)) : (t.runAll actions).Lost h := by
  induction actions generalizing t with
  | nil => exact lost
  | cons action rest ih => exact ih (lost.run action)

theorem get?_restored (lost : t.Lost h) : t.restored.get? h = none :=
  (Undo.get?_foldl_of_ne t.store lost.unlogged).trans lost.absent

end Lost

theorem next_le_runAll (t : Transaction K) (actions : List (Action K)) (j : Kind) :
    (t.store.roster j).next ≤ ((t.runAll actions).store.roster j).next :=
  (t.issues_runAll actions).next_le j

end Transaction

namespace Session
open Store Transaction

theorem numbered_run {s : Store K} (numbered : s.Numbered) (session : Session K) :
    (session.run s).1.Numbered := by
  have orderly : s.begin.Orderly := ⟨numbered, nofun⟩
  unfold run
  dsimp only
  split
  · intro k h beyond
    have kept := (orderly.runAll session.actions).numbered k h (by simpa [commit] using beyond)
    exact (get?_unlocked _ h).trans kept
  · exact (orderly.runAll session.actions).numbered_rollback

/-- Whatever sessions do, nothing stands under a number that was not given out. -/
theorem numbered_runAll {s : Store K} (numbered : s.Numbered) (sessions : List (Session K)) :
    (runAll s sessions).Numbered := by
  induction sessions generalizing s with
  | nil => exact numbered
  | cons session rest ih => exact ih (numbered_run numbered session)

/-- Neither end of a session moves a counter. -/
theorem next_run (s : Store K) (session : Session K) (k : Kind) :
    ((session.run s).1.roster k).next =
      ((s.begin.runAll session.actions).store.roster k).next := by
  unfold run
  dsimp only
  split
  · simp [commit]
  · exact next_rollback _ k

theorem issues_runAll (s : Store K) (sessions : List (Session K)) :
    Issues s (runAll s sessions) (issued s sessions) := by
  induction sessions generalizing s with
  | nil => exact .nil fun _ => rfl
  | cons session rest ih =>
    have during := s.begin.issues_runAll session.actions
    have ending : Issues _ (session.run s).1 [] := .nil (next_run s session)
    have first := during.append ending
    rw [List.append_nil] at first
    exact first.append (ih _)

/-- A record that is gone between two sessions is gone after the next. -/
theorem get?_run_of_absent {s : Store K} {k : Kind} {h : Handle k}
    (given : h.index < (s.roster k).next) (absent : s.get? h = none) (session : Session K) :
    (session.run s).1.get? h = none := by
  have lost : s.begin.Lost h := ⟨given, absent, nofun⟩
  have after := lost.runAll session.actions
  unfold run
  dsimp only
  split
  · exact (get?_unlocked _ h).trans after.absent
  · exact (get?_rollback _ h).trans after.get?_restored

theorem get?_runAll_of_absent {s : Store K} {k : Kind} {h : Handle k}
    (given : h.index < (s.roster k).next) (absent : s.get? h = none)
    (sessions : List (Session K)) : (runAll s sessions).get? h = none := by
  induction sessions generalizing s with
  | nil => exact absent
  | cons session rest ih =>
    refine ih ?_ (get?_run_of_absent given absent session)
    rw [next_run]
    exact Nat.lt_of_lt_of_le given (s.begin.next_le_runAll session.actions k)

/-- Inserts a tenant, and replaces it in a session that is dropped and in one that is kept. -/
def sampleHistory : List (Session Rat) :=
  [⟨[.insert (k := .tenant) ⟨"acme", []⟩], true⟩,
    ⟨[.remove (k := .tenant) ⟨0⟩, .insert (k := .tenant) ⟨"umbrella", []⟩], false⟩,
    ⟨[.insert (k := .tenant) ⟨"umbrella", []⟩, .remove (k := .tenant) ⟨0⟩], true⟩]

end Session
end FlowAdmission
