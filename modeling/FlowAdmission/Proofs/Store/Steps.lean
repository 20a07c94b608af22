import FlowAdmission.Proofs.Store.Actions

/-!
# Steps of a transaction

What a transaction does to the store is a sequence of its operations (`Steps`): new requests hold
no path, a change leaves the request and the path of a booking alone, requests are detached and
not removed, and a path is attached to a request that has none. Every such sequence

* takes its locks on top of the ones that were held (`Steps.holds`),
* gives out numbers upwards and never stores anything under a number not given out
  (`Steps.numbered`, `Steps.next_le`),
* keeps the crossings equal to the paths of the live requests (`Steps.mirrored`),
* loses no path and holds none twice: what it releases and what is still held are the paths held
  before and the ones it attached (`Steps.charged`).
-/
namespace FlowAdmission
variable {K : Type} {k : Kind}

/-- A request without a path; records of another kind never have one. -/
def Record.Unrouted : (k : Kind) → Record K k → Prop
  | .request, b => b.path = none
  | .tenant, _ | .vm, _ | .flow, _ => True

/-- The same request on the same path; of records of another kind nothing is asked. -/
def Record.SameRoute : (k : Kind) → Record K k → Record K k → Prop
  | .request, b, b' => b'.request = b.request ∧ b'.path = b.path
  | .tenant, _, _ | .vm, _, _ | .flow, _, _ => True

namespace Transaction

/-- The paths that count as reserved while the transaction runs: those it released stay reserved
until the commit. -/
def charged (t : Transaction K) : List (Path × Request K) := t.released ++ t.store.outstanding

/-- One operation, with the path that it attaches, if any. -/
inductive Step : List (Path × Request K) → Transaction K → Transaction K → Prop
  | lock (t : Transaction K) {k : Kind} (h : Handle k) : Step [] t (t.lock h)
  | insert (t : Transaction K) {k : Kind} (r : Record K k) (unrouted : Record.Unrouted k r) :
      Step [] t (t.insert r).2
  | update (t : Transaction K) {k : Kind} (h : Handle k) (change : Record K k → Record K k)
      (kept : ∀ r, t.store.get? h = some r → Record.SameRoute k r (change r)) :
      Step [] t (t.update h change)
  | remove (t : Transaction K) {k : Kind} (h : Handle k) (plain : k ≠ .request) :
      Step [] t (t.remove h)
  | attach (t : Transaction K) (id : RequestId) (path : Path) (b : Booking K)
      (live : t.store.request? id = some b) (unrouted : b.path = none) :
      Step [(path, b.request)] t (t.attach id path)
  | detach (t : Transaction K) (id : RequestId) : Step [] t (t.detach id)

/-- Operations one after the other, with the paths they attach. -/
inductive Steps : List (Path × Request K) → Transaction K → Transaction K → Prop
  | refl (t : Transaction K) : Steps [] t t
  | tail {xs ys : List (Path × Request K)} {t t' t'' : Transaction K} :
      Steps xs t t' → Step ys t' t'' → Steps (ys ++ xs) t t''

namespace Step
variable {xs : List (Path × Request K)} {t t' : Transaction K}

theorem exists_action (step : Step xs t t') :
    ∃ action : Action K, action.Permitted t.store ∧ action.run t = t' := by
  cases step with
  | lock _ h => exact ⟨.lock h, trivial, rfl⟩
  | @insert _ k r unrouted =>
    refine ⟨.insert r, ?_, rfl⟩
    cases k with
    | request => exact unrouted
    | tenant | vm | flow => rfl
  | @update _ k h change kept =>
    refine ⟨.update h change, fun r live => ?_, rfl⟩
    cases k with
    | request => exact (kept r live).2
    | tenant | vm | flow => rfl
  | remove _ h plain => exact ⟨.remove h, plain, rfl⟩
  | attach _ id path b live unrouted =>
    refine ⟨.attach id path, fun b' live' => ?_, rfl⟩
    rw [live] at live'
    cases live'
    exact unrouted
  | detach _ id => exact ⟨.detach id, trivial, rfl⟩

theorem holds {base : List AnyHandle} (step : Step xs t t') (before : t.Holds base) :
    t'.Holds base := by
  obtain ⟨action, _, rfl⟩ := step.exists_action
  exact action.holds before

theorem next_le (step : Step xs t t') (j : Kind) :
    (t.store.roster j).next ≤ (t'.store.roster j).next := by
  obtain ⟨action, _, rfl⟩ := step.exists_action
  exact action.next_le t j

theorem numbered (step : Step xs t t') (before : t.store.Numbered) : t'.store.Numbered := by
  obtain ⟨action, _, rfl⟩ := step.exists_action
  exact action.numbered before

theorem mirrored (step : Step xs t t') (numbered : t.store.Numbered)
    (before : t.store.Mirrored) : t'.store.Mirrored := by
  obtain ⟨action, permitted, rfl⟩ := step.exists_action
  exact permitted.faithful.mirrored numbered before

/-- An operation moves paths between what is held and what is released; only an attached path is
new. -/
theorem charged (step : Step xs t t') (numbered : t.store.Numbered) :
    t'.charged.Perm (xs ++ t.charged) := by
  unfold Transaction.charged
  cases step with
  | lock _ h =>
    have still : (t.lock h).store.requests = t.store.requests := t.roster_lock (j := .request) h
    simp [Store.outstanding_congr (congrArg Roster.entries still)]
  | @insert _ k r unrouted =>
    by_cases hk : k = .request
    · subst hk
      have put := t.store.outstanding_put (t.insert r).1 r
      have fresh : t.store.request? (t.insert r).1 = none := numbered _ _ (Nat.le_refl _)
      have entered : (t.insert r).2.store.outstanding =
          (t.store.put (t.insert r).1 r).outstanding := Store.outstanding_congr rfl
      have bare : r.held? = none := by
        have : r.path = none := unrouted
        simp [Booking.held?, this]
      rw [Store.outstanding_erase_of_get?_eq_none fresh, bare] at put
      rw [entered]
      exact put.append_left t.released
    · have still : (t.insert r).2.store.requests = t.store.requests :=
        Store.roster_setRoster_of_ne t.store _ (Ne.symm hk)
      rw [Store.outstanding_congr (congrArg Roster.entries still)]
      exact .refl _
  | @update _ k h change kept =>
    unfold Transaction.update
    cases live : t.store.get? h with
    | none => simp
    | some before =>
      by_cases hk : k = .request
      · subst hk
        have same : (change before).held? = before.held? := by
          obtain ⟨request, path⟩ := kept before live
          simp [Booking.held?, request, path]
        have put := t.store.outstanding_put h (change before)
        have taken := Store.outstanding_erase live
        rw [same] at put
        simpa [log] using (put.trans taken.symm).append_left t.released
      · have still : (t.store.put h (change before)).requests = t.store.requests :=
          Store.roster_setRoster_of_ne t.store _ (Ne.symm hk)
        simp [log, Store.outstanding_congr (congrArg Roster.entries still)]
  | @remove _ k h plain =>
    rcases t.remove_cases h with same | ⟨before, _, _, removed⟩
    · rw [same]
      exact .refl _
    · have still : (t.store.erase h).requests = t.store.requests :=
        Store.roster_setRoster_of_ne t.store _ (Ne.symm plain)
      simp [removed, log, Store.outstanding_congr (congrArg Roster.entries still)]
  | attach _ id path b live unrouted =>
    have put := t.store.outstanding_put id { b with path := some path }
    have taken := Store.outstanding_erase live
    simp only [Booking.held?, unrouted, Option.map_none, Option.toList_none, List.nil_append,
      Option.map_some, Option.toList_some, List.singleton_append] at put taken
    have gained := (put.trans (taken.symm.cons _)).append_left t.released
    have entered : (t.attach id path).store.outstanding =
        (t.store.put id { b with path := some path }).outstanding := by
      simp only [Transaction.attach, live, log]
      exact Store.outstanding_congr rfl
    have quiet : (t.attach id path).released = t.released := by
      simp [Transaction.attach, live, log]
    rw [entered, quiet]
    exact gained.trans List.perm_middle
  | detach _ id =>
    unfold Transaction.detach
    cases live : t.store.request? id with
    | none => simp
    | some b =>
      have taken := (Store.outstanding_erase live).append_left t.released
      cases hp : b.path with
      | none => simpa [log, hp, Booking.held?] using taken.symm
      | some path =>
        have moved : ((t.store.erase id).removeCrossings id path).outstanding =
            (t.store.erase id).outstanding := Store.outstanding_congr rfl
        simpa [log, hp, Booking.held?, moved] using taken.symm

end Step

namespace Steps
variable {xs ys : List (Path × Request K)} {t t' t'' : Transaction K}

theorem single (step : Step xs t t') : Steps xs t t' := by
  have steps := Steps.tail (.refl t) step
  rwa [List.append_nil] at steps

theorem trans (first : Steps xs t t') (second : Steps ys t' t'') : Steps (ys ++ xs) t t'' := by
  induction second with
  | refl => exact first
  | tail _ step ih =>
    have steps := ih first |>.tail step
    rwa [← List.append_assoc] at steps

/-- Two runs that attach nothing make one. -/
theorem quiet_trans (first : Steps [] t t') (second : Steps [] t' t'') : Steps [] t t'' :=
  first.trans second

/-- A run over a list attaches nothing if no item does. -/
theorem foldl {α : Type} {f : Transaction K → α → Transaction K}
    (each : ∀ t a, Steps [] t (f t a)) (as : List α) (t : Transaction K) :
    Steps [] t (as.foldl f t) := by
  induction as generalizing t with
  | nil => exact .refl t
  | cons a rest ih => exact (each t a).quiet_trans (ih (f t a))

theorem holds {base : List AnyHandle} (steps : Steps xs t t') (before : t.Holds base) :
    t'.Holds base := by
  induction steps with
  | refl => exact before
  | tail _ step ih => exact step.holds (ih before)

theorem next_le (steps : Steps xs t t') (j : Kind) :
    (t.store.roster j).next ≤ (t'.store.roster j).next := by
  induction steps with
  | refl => exact Nat.le_refl _
  | tail _ step ih => exact Nat.le_trans ih (step.next_le j)

theorem numbered (steps : Steps xs t t') (before : t.store.Numbered) : t'.store.Numbered := by
  induction steps with
  | refl => exact before
  | tail _ step ih => exact step.numbered (ih before)

theorem mirrored (steps : Steps xs t t') (numbered : t.store.Numbered)
    (before : t.store.Mirrored) : t'.store.Mirrored := by
  induction steps with
  | refl => exact before
  | tail earlier step ih => exact step.mirrored (earlier.numbered numbered) (ih numbered before)

/-- No path is lost and none is held twice. -/
theorem charged (steps : Steps xs t t') (numbered : t.store.Numbered) :
    t'.charged.Perm (xs ++ t.charged) := by
  induction steps with
  | refl => exact .refl _
  | tail earlier step ih =>
    have last := step.charged (earlier.numbered numbered)
    rw [List.append_assoc]
    exact last.trans ((ih numbered).append_left _)

end Steps

/-- The end of a transaction leaves the locks that were held before it. -/
theorem locks_unlocked {base : List AnyHandle} {t : Transaction K} (holds : t.Holds base) :
    t.unlocked.locks = base := by
  have dropped : ∀ held : List AnyHandle, held.foldl List.erase (held ++ base) = base := by
    intro held
    induction held with
    | nil => rfl
    | cons h rest ih => simpa using ih
  unfold Holds at holds
  simp [unlocked, holds, dropped]

@[simp] theorem roster_unlocked (t : Transaction K) (j : Kind) :
    t.unlocked.roster j = t.store.roster j := Store.roster_withLocks _ _

@[simp] theorem get?_unlocked (t : Transaction K) {j : Kind} (i : Handle j) :
    t.unlocked.get? i = t.store.get? i := Store.get?_withLocks _ _ _

@[simp] theorem crossings_unlocked (t : Transaction K) :
    t.unlocked.crossings = t.store.crossings := rfl

theorem holds_begin (s : Store K) : s.begin.Holds s.locks := rfl

@[simp] theorem charged_begin (s : Store K) : s.begin.charged = s.outstanding := rfl

@[simp] theorem outstanding_unlocked (t : Transaction K) :
    t.unlocked.outstanding = t.store.outstanding := Store.outstanding_congr rfl

/-- What a transaction has released and what is held at its end was held before or attached. -/
theorem Steps.perm_begin {xs : List (Path × Request K)} {s : Store K} {t : Transaction K}
    (steps : Steps xs s.begin t) (numbered : s.Numbered) :
    (t.released ++ t.store.outstanding).Perm (xs ++ s.outstanding) := by
  have before : s.begin.store.Numbered := numbered
  have perm := steps.charged before
  rwa [charged_begin] at perm

end Transaction
end FlowAdmission
