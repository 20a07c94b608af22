import FlowAdmission.Proofs.Store.Bookings
import FlowAdmission.Store.Session

/-!
# Operations of a transaction

What every single operation keeps. Whatever it is, it takes its lock on top of those that were held
(`Action.holds`), and it gives out numbers upwards and stores nothing under a number not given out
(`Action.numbered`, `Action.next_le`). If a change leaves a request the edges of its path
(`Action.Faithful`), the crossings stay equal to the paths of the live requests
(`Action.Faithful.mirrored`), and then it can be taken back (`Action.Faithful.reversible`). Both
are so if paths are left to `attach` and `detach` (`Action.Permitted`).
-/
namespace FlowAdmission
variable {K : Type} {k : Kind}

/-- The path that a record holds; only requests have one. -/
def Record.path? : (k : Kind) → Record K k → Option Path
  | .request, b => b.path
  | .tenant, _ | .vm, _ | .flow, _ => none

/-- The edges that the path of a record runs over. -/
def Record.edges (k : Kind) (r : Record K k) : List EdgeId := (Record.path? k r).getD []

theorem Record.edges_of_ne (hk : k ≠ .request) (r : Record K k) : Record.edges k r = [] := by
  cases k with
  | request => exact absurd rfl hk
  | tenant | vm | flow => rfl

namespace Store

/-- Nothing is stored under a number that has not been given out. -/
def Numbered (s : Store K) : Prop :=
  ∀ (k : Kind) (h : Handle k), (s.roster k).next ≤ h.index → s.get? h = none

/-- The crossings are those of the paths of live requests. -/
def Mirrored (s : Store K) : Prop :=
  ∀ c : Crossing, c ∈ s.crossings ↔
    ∃ b p, s.request? c.request = some b ∧ b.path = some p ∧ c.edge ∈ p

/-- The edges that the path of a request runs over; none if it is not live or has no path. -/
def edgesOf (s : Store K) (id : RequestId) : List EdgeId :=
  ((s.request? id).bind (·.path)).getD []

theorem Numbered.lt_next {s : Store K} (numbered : s.Numbered) {h : Handle k}
    {r : Record K k} (live : s.get? h = some r) : h.index < (s.roster k).next := by
  by_contra beyond
  rw [numbered k h (Nat.le_of_not_lt beyond)] at live
  cases live

theorem numbered_empty : (empty : Store K).Numbered := by
  intro k h _
  cases k <;> simp [get?, roster, empty]

theorem mirrored_empty : (empty : Store K).Mirrored := by
  intro c
  simp [request?, get?, roster, empty]

section edges
variable {s s' : Store K}

theorem edgesOf_of_live {id : RequestId} {b : Booking K} (live : s.request? id = some b) :
    s.edgesOf id = Record.edges .request b := by
  rw [edgesOf, live]
  rfl

theorem edgesOf_of_absent {id : RequestId} (absent : s.request? id = none) :
    s.edgesOf id = [] := by
  rw [edgesOf, absent]
  rfl

theorem edgesOf_congr {id : RequestId} (same : s'.request? id = s.request? id) :
    s'.edgesOf id = s.edgesOf id := by
  rw [edgesOf, edgesOf, same]

theorem mirrored_iff :
    s.Mirrored ↔ ∀ c : Crossing, c ∈ s.crossings ↔ c.edge ∈ s.edgesOf c.request := by
  refine forall_congr' fun c => iff_congr .rfl ?_
  cases live : s.request? c.request with
  | none => simp [edgesOf_of_absent live]
  | some b => cases hp : b.path <;> simp [edgesOf_of_live live, Record.edges, Record.path?, hp]

/-- A change that enters and strikes off nothing keeps the index right exactly when it leaves every
request the edges of its path. -/
theorem Mirrored.iff_of_crossings (mirrored : s.Mirrored) (same : s'.crossings = s.crossings) :
    s'.Mirrored ↔ ∀ id e, e ∈ s'.edgesOf id ↔ e ∈ s.edgesOf id := by
  rw [mirrored_iff] at *
  constructor
  · intro mirrored' id e
    rw [← mirrored' ⟨e, id⟩, ← mirrored ⟨e, id⟩, same]
  · intro edges c
    rw [same, mirrored c, edges]

end edges

end Store

/-- The locks of the store are those that the transaction took on top of the `base`. -/
def Transaction.Holds (base : List AnyHandle) (t : Transaction K) : Prop :=
  t.store.locks = t.held ++ base

namespace Action
variable {t : Transaction K}

/-- Paths are left to `attach` and `detach`: a new request has none, a change keeps the path, a
path is attached where there is none, and a request is not removed but detached. Operations on
records that are not there are permitted, as they change nothing. -/
def Permitted (s : Store K) : Action K → Prop
  | lock _ | detach _ => True
  | insert (k := k) record => record.path? k = none
  | update (k := k) h change => ∀ record ∈ s.get? h, (change record).path? k = record.path? k
  | remove (k := k) _ => k ≠ .request
  | attach id _ => ∀ b ∈ s.request? id, b.path = none

instance (s : Store K) (action : Action K) : Decidable (action.Permitted s) := by
  cases action <;> unfold Permitted <;> infer_instance

/-- A new request has no path, and a change may give a request another path over the same edges
but none over others. A path is attached where there is none, and a request is not removed but
detached. -/
def Faithful (s : Store K) : Action K → Prop
  | lock _ | detach _ => True
  | insert (k := k) record => Record.edges k record = []
  | update (k := k) h change => ∀ record ∈ s.get? h,
      Record.edges k (change record) ⊆ Record.edges k record ∧
        Record.edges k record ⊆ Record.edges k (change record)
  | remove (k := k) _ => k ≠ .request
  | attach id _ => ∀ b ∈ s.request? id, b.path = none

instance (s : Store K) (action : Action K) : Decidable (action.Faithful s) := by
  cases action <;> unfold Faithful <;> infer_instance

theorem Permitted.faithful {s : Store K} {action : Action K} (permitted : action.Permitted s) :
    action.Faithful s := by
  cases action with
  | lock | detach => trivial
  | @insert k record =>
    have bare : record.path? k = none := permitted
    simp [Faithful, Record.edges, bare]
  | @update k h change =>
    intro record live
    have same : (change record).path? k = record.path? k := permitted record live
    simp [Record.edges, same]
  | remove | attach => exact permitted

theorem holds (action : Action K) {base : List AnyHandle} (before : t.Holds base) :
    (action.run t).Holds base := by
  unfold Transaction.Holds at *
  cases action with
  | lock h =>
    show (t.lock h).store.locks = (t.lock h).held ++ base
    unfold Transaction.lock
    split
    · simp [before]
    · exact before
  | insert record => simpa [run, Transaction.insert, Transaction.log, Store.insert] using before
  | update h change =>
    show (t.update h change).store.locks = (t.update h change).held ++ base
    unfold Transaction.update
    split
    · exact before
    · simpa [Transaction.log, Store.put] using before
  | remove h =>
    show (t.remove h).store.locks = (t.remove h).held ++ base
    rcases t.remove_cases h with same | ⟨_, _, _, removed⟩
    · rw [same]
      exact before
    · rw [removed]
      simpa [Transaction.log, Store.erase] using before
  | attach id path =>
    show (t.attach id path).store.locks = (t.attach id path).held ++ base
    unfold Transaction.attach
    split
    · exact before
    · simpa [Transaction.log, Store.put, Store.addCrossings] using before
  | detach id =>
    show (t.detach id).store.locks = (t.detach id).held ++ base
    unfold Transaction.detach
    split
    · exact before
    · split
      · simpa [Transaction.log, Store.erase] using before
      · simpa [Transaction.log, Store.erase, Store.removeCrossings] using before

theorem next_le (action : Action K) (t : Transaction K) (j : Kind) :
    (t.store.roster j).next ≤ ((action.run t).store.roster j).next := by
  cases action with
  | insert => simp [run, Transaction.next_insert]
  | _ => simp [run]

/-- Where nothing stands, something comes to stand only under a number that is given out in this
operation. -/
theorem absent (action : Action K) {j : Kind} {i : Handle j} (missing : t.store.get? i = none)
    (old_or_new : i.index < (t.store.roster j).next ∨
      ((action.run t).store.roster j).next ≤ i.index) :
    (action.run t).store.get? i = none := by
  cases action with
  | lock h => simpa [run] using missing
  | @insert k r =>
    by_cases hk : j = k
    · subst hk
      have other : (t.insert r).1 ≠ i := by
        intro same
        subst same
        have number : (t.insert r).1.index = (t.store.roster j).next := rfl
        simp only [run, number, Transaction.next_insert, if_true] at old_or_new
        omega
      exact (t.get?_insert r i).trans ((if_neg other).trans missing)
    · exact (t.get?_insert_of_ne r i hk).trans missing
  | @update k h change =>
    by_cases hk : j = k
    · subst hk
      simp [run, Transaction.get?_update, missing]
    · exact (t.get?_update_of_ne h change i hk).trans missing
  | @remove k h =>
    show (t.remove h).store.get? i = none
    by_cases hk : j = k
    · subst hk
      rcases t.remove_cases h with same | ⟨_, plain, _⟩
      · rw [same]
        exact missing
      · simp [t.get?_remove h i plain, missing]
    · exact (t.get?_remove_of_ne h i hk).trans missing
  | attach id path =>
    by_cases hk : j = .request
    · subst hk
      simp [run, Transaction.get?_attach, missing]
    · exact (t.get?_attach_of_ne id path i hk).trans missing
  | detach id =>
    by_cases hk : j = .request
    · subst hk
      simp [run, Transaction.get?_detach, missing]
    · exact (t.get?_detach_of_ne id i hk).trans missing

theorem numbered (action : Action K) (before : t.store.Numbered) :
    (action.run t).store.Numbered :=
  fun j i beyond =>
    action.absent (before j i (Nat.le_trans (action.next_le t j) beyond)) (.inr beyond)

/-- What the inverses of `attach` and `detach` rely on: the new path is not crossed yet, and a
routed request crosses every edge of its path. All other operations can always be taken back. -/
def Reversible (s : Store K) : Action K → Prop
  | lock _ | insert _ | update _ _ | remove _ => True
  | attach id path => ∀ b ∈ s.request? id, b.path = none ∧ ∀ e ∈ path, ⟨e, id⟩ ∉ s.crossings
  | detach id => ∀ b ∈ s.request? id, ∀ e ∈ b.path.getD [], ⟨e, id⟩ ∈ s.crossings

instance (s : Store K) (action : Action K) : Decidable (action.Reversible s) := by
  cases action <;> unfold Reversible <;> infer_instance

/-- While the crossings are right, faithful operations can be taken back. -/
theorem Faithful.reversible {s : Store K} {action : Action K} (faithful : action.Faithful s)
    (mirrored : s.Mirrored) : action.Reversible s := by
  rw [Store.mirrored_iff] at mirrored
  cases action with
  | lock | insert | update | remove => trivial
  | attach id path =>
    intro b live
    have unrouted : b.path = none := faithful b live
    refine ⟨unrouted, fun e _ => ?_⟩
    rw [mirrored, Store.edgesOf_of_live live]
    simp [Record.edges, Record.path?, unrouted]
  | detach id =>
    intro b live e on_path
    rw [mirrored, Store.edgesOf_of_live live]
    exact on_path

theorem mirrored_insert (numbered : t.store.Numbered) (mirrored : t.store.Mirrored)
    {record : Record K k} (bare : Record.edges k record = []) :
    (t.insert record).2.store.Mirrored := by
  refine (mirrored.iff_of_crossings (t.crossings_insert record)).mpr fun id e => ?_
  by_cases hk : k = .request
  · subst hk
    have looked := t.get?_insert record id
    split at looked
    · rename_i new
      have fresh : t.store.request? id = none := new ▸ numbered _ _ (Nat.le_refl _)
      rw [Store.edgesOf_of_live looked, bare, Store.edgesOf_of_absent fresh]
    · rw [Store.edgesOf_congr looked]
  · rw [Store.edgesOf_congr (t.get?_insert_of_ne record id (Ne.symm hk))]

/-- After a change the index is right exactly when the edges are still those it was made for. -/
theorem mirrored_update_iff (mirrored : t.store.Mirrored) {h : Handle k}
    {change : Record K k → Record K k} :
    (t.update h change).store.Mirrored ↔ (update h change).Faithful t.store := by
  rw [mirrored.iff_of_crossings (t.crossings_update h change)]
  by_cases hk : k = .request
  · subst hk
    have changed : ∀ {b : Booking K}, t.store.request? h = some b →
        (t.update h change).store.request? h = some (change b) := fun live =>
      (t.get?_update h h change).trans ((if_pos rfl).trans (congrArg (Option.map change) live))
    constructor
    · intro same b live
      rw [← Store.edgesOf_of_live (changed live), ← Store.edgesOf_of_live live]
      exact ⟨fun e => (same h e).mp, fun e => (same h e).mpr⟩
    · intro faithful id e
      by_cases here : h = id
      · subst here
        cases live : t.store.request? h with
        | none =>
          have absent : t.store.get? h = none := live
          have still : t.update h change = t := by simp [Transaction.update, absent]
          rw [still]
        | some b =>
          obtain ⟨kept, lost⟩ := faithful b live
          rw [Store.edgesOf_of_live (changed live), Store.edgesOf_of_live live]
          exact ⟨fun on_path => kept on_path, fun on_path => lost on_path⟩
      · rw [Store.edgesOf_congr ((t.get?_update h id change).trans (if_neg here))]
  · have elsewhere : ∀ id, (t.update h change).store.edgesOf id = t.store.edgesOf id := fun id =>
      Store.edgesOf_congr (t.get?_update_of_ne h change id (Ne.symm hk))
    simp [Faithful, Record.edges_of_ne hk, elsewhere]

/-- The crossings follow the paths in every faithful operation. -/
theorem Faithful.mirrored {action : Action K} (faithful : action.Faithful t.store)
    (numbered : t.store.Numbered) (before : t.store.Mirrored) :
    (action.run t).store.Mirrored := by
  cases action with
  | insert record => exact mirrored_insert numbered before faithful
  | update h change => exact (mirrored_update_iff before).mpr faithful
  | lock h =>
    refine (before.iff_of_crossings (t.crossings_lock h)).mpr fun id e => ?_
    rw [Store.edgesOf_congr (t.get?_lock h id)]
  | remove h =>
    refine (before.iff_of_crossings (t.crossings_remove h)).mpr fun id e => ?_
    rw [Store.edgesOf_congr (t.get?_remove_of_ne h id (Ne.symm faithful))]
  | attach id path =>
    show (t.attach id path).store.Mirrored
    cases live : t.store.request? id with
    | none =>
      have still : t.attach id path = t := by simp [Transaction.attach, live]
      rwa [still]
    | some b =>
      have unrouted : b.path = none := faithful b live
      have given : (t.attach id path).store.request? id = some { b with path := some path } :=
        (t.get?_attach id id path).trans ((if_pos rfl).trans (congrArg (Option.map _) live))
      rw [Store.mirrored_iff] at *
      intro c
      rw [Transaction.mem_crossings_attach _ live, before c]
      by_cases here : id = c.request
      · subst here
        rw [Store.edgesOf_of_live given, Store.edgesOf_of_live live]
        simp [Record.edges, Record.path?, unrouted]
      · rw [Store.edgesOf_congr ((t.get?_attach id c.request path).trans (if_neg here))]
        simp [Ne.symm here]
  | detach id =>
    show (t.detach id).store.Mirrored
    cases live : t.store.request? id with
    | none =>
      have still : t.detach id = t := by simp [Transaction.detach, live]
      rwa [still]
    | some b =>
      have gone : (t.detach id).store.request? id = none :=
        (t.get?_detach id id).trans (if_pos rfl)
      rw [Store.mirrored_iff] at *
      intro c
      rw [Transaction.mem_crossings_detach _ live, before c]
      by_cases here : id = c.request
      · subst here
        rw [Store.edgesOf_of_absent gone, Store.edgesOf_of_live live]
        simp [Record.edges, Record.path?]
      · rw [Store.edgesOf_congr ((t.get?_detach id c.request).trans (if_neg here))]
        simp [Ne.symm here]

end Action
end FlowAdmission
