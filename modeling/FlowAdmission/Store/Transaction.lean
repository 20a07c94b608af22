import FlowAdmission.Store.Basic

/-!
# Transactions

Every change of the store goes through a transaction. Changes are made in place and logged with
their inverses. A commit forgets the log and hands out the paths whose reservations are to be
given back; a rollback replays the inverses, newest first, and hands out nothing. Both let go of
the locks that the transaction took. Numbers given out stay given out.

An operation on a record that is not there changes nothing. Nor does the removal of a request, which
is refused.
-/
namespace FlowAdmission

/-- The inverse of one change. -/
inductive Undo (K : Type) where
  /-- Takes a new record away. -/
  | discard (k : Kind) (h : Handle k)
  /-- Puts back a record as it was before a change or removal. -/
  | restore (k : Kind) (h : Handle k) (before : Record K k)
  /-- Takes a new path off its request. -/
  | detach (request : RequestId) (path : Path)
  /-- Puts back a detached request with its path. -/
  | reattach (request : RequestId) (before : Booking K)

def Undo.apply {K : Type} (s : Store K) : Undo K → Store K
  | .discard _ h => s.erase h
  | .restore _ h before => s.put h before
  | .detach request path =>
    let s := s.removeCrossings request path
    match s.request? request with
    | none => s
    | some booking => s.put request { booking with path := none }
  | .reattach request before =>
    let s := match before.path with
      | none => s
      | some path => s.addCrossings request path
    s.put request before

structure Transaction (K : Type) where
  store : Store K
  /-- Newest first. -/
  undos : List (Undo K)
  /-- The locks this transaction took, each once, newest first. -/
  held : List AnyHandle
  /-- Paths whose reservations end with the commit, in the order of their release. -/
  released : List (Path × Request K)

def Store.begin {K : Type} (s : Store K) : Transaction K := ⟨s, [], [], []⟩

namespace Transaction
variable {K : Type} {k : Kind}

/-- Lets go of the transaction's locks. -/
def unlocked (t : Transaction K) : Store K :=
  { t.store with locks := t.held.foldl List.erase t.store.locks }

def commit (t : Transaction K) : Store K × List (Path × Request K) := (t.unlocked, t.released)

def rollback (t : Transaction K) : Store K :=
  unlocked { t with store := t.undos.foldl Undo.apply t.store }

/-- Replaces the store and logs how to take that back. -/
def log (t : Transaction K) (store : Store K) (undo : Undo K) : Transaction K :=
  { t with store, undos := undo :: t.undos }

/-- Takes a read lock until the end of the transaction. Only records that are there can be locked,
and a lock held already is not taken again. -/
def lock (t : Transaction K) (h : Handle k) : Transaction K :=
  if t.store.contains h ∧ h.any ∉ t.held then
    { t with
      store := { t.store with locks := h.any :: t.store.locks }
      held := h.any :: t.held }
  else t

/-- Reads records under a lock, one after the other, until one passes the test. -/
def anyRead (test : Record K k → Bool) (t : Transaction K) : List (Handle k) → Bool × Transaction K
  | [] => (false, t)
  | h :: rest =>
    let t := t.lock h
    if (t.store.get? h).any test then (true, t) else anyRead test t rest

/-- Stores a new record and tells its handle. -/
def insert (t : Transaction K) (r : Record K k) : Handle k × Transaction K :=
  let (h, store) := t.store.insert r
  (h, t.log store (.discard k h))

/-- Changes a record. -/
def update (t : Transaction K) (h : Handle k) (change : Record K k → Record K k) :
    Transaction K :=
  match t.store.get? h with
  | none => t
  | some before => t.log (t.store.put h (change before)) (.restore k h before)

/-- Removes a record. A request is refused: it has to be detached, which releases its path, too. -/
def remove (t : Transaction K) (h : Handle k) : Transaction K :=
  if k = .request then t
  else
    match t.store.get? h with
    | none => t
    | some before => t.log (t.store.erase h) (.restore k h before)

/-- Gives a request its path, which has been registered before. -/
def attach (t : Transaction K) (request : RequestId) (path : Path) : Transaction K :=
  match t.store.request? request with
  | none => t
  | some booking =>
    let store := t.store.put request { booking with path := some path }
    t.log (store.addCrossings request path) (.detach request path)

/-- Removes a request. Its path, if it has one, is released with the commit. -/
def detach (t : Transaction K) (request : RequestId) : Transaction K :=
  match t.store.request? request with
  | none => t
  | some booking =>
    let store := t.store.erase request
    match booking.path with
    | none => t.log store (.reattach request booking)
    | some path =>
      { t.log (store.removeCrossings request path) (.reattach request booking) with
        released := t.released ++ [(path, booking.request)] }

section lookups
variable {j : Kind} (t : Transaction K)

@[simp] theorem roster_lock (h : Handle k) : (t.lock h).store.roster j = t.store.roster j := by
  unfold lock
  split <;> simp

@[simp] theorem get?_lock (h : Handle k) (i : Handle j) :
    (t.lock h).store.get? i = t.store.get? i := by
  simp [Store.get?]

@[simp] theorem crossings_lock (h : Handle k) :
    (t.lock h).store.crossings = t.store.crossings := by
  unfold lock
  split <;> rfl

@[simp] theorem released_lock (h : Handle k) : (t.lock h).released = t.released := by
  unfold lock
  split <;> rfl

theorem get?_insert (r : Record K k) (i : Handle k) :
    (t.insert r).2.store.get? i = if (t.insert r).1 = i then some r else t.store.get? i := by
  have looked := t.store.get?_insert r i
  cases i
  simpa [insert, log, Store.insert, Roster.insert] using looked

theorem get?_insert_of_ne (r : Record K k) (i : Handle j) (hk : j ≠ k) :
    (t.insert r).2.store.get? i = t.store.get? i :=
  t.store.get?_insert_of_ne r i hk

theorem get?_update (h i : Handle k) (change : Record K k → Record K k) :
    (t.update h change).store.get? i =
      if h = i then (t.store.get? i).map change else t.store.get? i := by
  unfold update
  cases found : t.store.get? h with
  | none =>
    by_cases hi : h = i
    · subst hi
      simp [found]
    · simp [hi]
  | some before =>
    by_cases hi : h = i
    · subst hi
      simp [log, Store.get?_put, found]
    · simp [log, Store.get?_put, hi]

theorem get?_update_of_ne (h : Handle k) (change : Record K k → Record K k) (i : Handle j)
    (hk : j ≠ k) : (t.update h change).store.get? i = t.store.get? i := by
  unfold update
  split
  · rfl
  · exact Store.get?_put_of_ne _ _ _ _ hk

/-- A removal changes nothing, or it takes one record away that is no request. -/
theorem remove_cases (h : Handle k) :
    t.remove h = t ∨ ∃ before, k ≠ .request ∧ t.store.get? h = some before ∧
      t.remove h = t.log (t.store.erase h) (.restore k h before) := by
  unfold remove
  by_cases request : k = .request
  · exact .inl (if_pos request)
  · rw [if_neg request]
    cases found : t.store.get? h with
    | none => exact .inl rfl
    | some before => exact .inr ⟨before, request, rfl, rfl⟩

theorem get?_remove (h i : Handle k) (plain : k ≠ .request) :
    (t.remove h).store.get? i = if h = i then none else t.store.get? i := by
  unfold remove
  rw [if_neg plain]
  cases found : t.store.get? h with
  | none =>
    by_cases hi : h = i
    · subst hi
      simp [found]
    · simp [hi]
  | some before => simp [log, Store.get?_erase]

theorem get?_remove_of_ne (h : Handle k) (i : Handle j) (hk : j ≠ k) :
    (t.remove h).store.get? i = t.store.get? i := by
  rcases t.remove_cases h with same | ⟨_, _, _, removed⟩
  · rw [same]
  · rw [removed]
    exact Store.get?_erase_of_ne _ _ _ hk

theorem get?_attach (id i : RequestId) (path : Path) :
    (t.attach id path).store.get? i =
      if id = i then (t.store.get? i).map fun booking : Booking K => { booking with path }
      else t.store.get? i := by
  unfold attach Store.request?
  cases found : t.store.get? id with
  | none =>
    by_cases hi : id = i
    · subst hi
      simp [found]
    · simp [hi]
  | some booking =>
    by_cases hi : id = i
    · subst hi
      simp [log, Store.get?_put, found]
    · simp [log, Store.get?_put, hi]

theorem get?_attach_of_ne (id : RequestId) (path : Path) (i : Handle j) (hk : j ≠ .request) :
    (t.attach id path).store.get? i = t.store.get? i := by
  unfold attach
  split
  · rfl
  · simp [log, Store.get?_put_of_ne _ _ _ _ hk]

theorem get?_detach (id i : RequestId) :
    (t.detach id).store.get? i = if id = i then none else t.store.get? i := by
  unfold detach Store.request?
  cases found : t.store.get? id with
  | none =>
    by_cases hi : id = i
    · subst hi
      simp [found]
    · simp [hi]
  | some booking => cases hp : booking.path <;> simp [log, hp, Store.get?_erase]

theorem get?_detach_of_ne (id : RequestId) (i : Handle j) (hk : j ≠ .request) :
    (t.detach id).store.get? i = t.store.get? i := by
  unfold detach
  split
  · rfl
  · split <;> simp [log, Store.get?_erase_of_ne _ _ _ hk]

@[simp] theorem crossings_insert (r : Record K k) :
    (t.insert r).2.store.crossings = t.store.crossings := Store.crossings_insert _ r

@[simp] theorem crossings_update (h : Handle k) (change : Record K k → Record K k) :
    (t.update h change).store.crossings = t.store.crossings := by
  unfold update
  split
  · rfl
  · exact Store.crossings_put _ _ _

@[simp] theorem crossings_remove (h : Handle k) :
    (t.remove h).store.crossings = t.store.crossings := by
  rcases t.remove_cases h with same | ⟨_, _, _, removed⟩
  · rw [same]
  · rw [removed]
    exact Store.crossings_erase _ _

/-- An attached path is crossed by its request on every edge. -/
theorem mem_crossings_attach {id : RequestId} {booking : Booking K} {path : Path} {c : Crossing}
    (live : t.store.request? id = some booking) :
    c ∈ (t.attach id path).store.crossings ↔
      c ∈ t.store.crossings ∨ (c.edge ∈ path ∧ c.request = id) := by
  simp [attach, live, log, Store.mem_crossings_addCrossings]

/-- A detached request is struck off the edges of its path. -/
theorem mem_crossings_detach {id : RequestId} {booking : Booking K} {c : Crossing}
    (live : t.store.request? id = some booking) :
    c ∈ (t.detach id).store.crossings ↔
      c ∈ t.store.crossings ∧ ¬(c.edge ∈ booking.path.getD [] ∧ c.request = id) := by
  cases hp : booking.path <;>
    simp [detach, live, hp, log, Store.mem_crossings_removeCrossings]

@[simp] theorem released_update (h : Handle k) (change : Record K k → Record K k) :
    (t.update h change).released = t.released := by
  unfold update
  split <;> rfl

@[simp] theorem released_remove (h : Handle k) : (t.remove h).released = t.released := by
  rcases t.remove_cases h with same | ⟨_, _, _, removed⟩
  · rw [same]
  · rw [removed]
    rfl

/-- Of the counters only that of the new record's kind moves on. -/
theorem next_insert (r : Record K k) :
    ((t.insert r).2.store.roster j).next = (t.store.roster j).next + if j = k then 1 else 0 :=
  t.store.next_insert r j

@[simp] theorem next_update (h : Handle k) (change : Record K k → Record K k) :
    ((t.update h change).store.roster j).next = (t.store.roster j).next := by
  unfold update
  split
  · rfl
  · exact Store.next_put _ _ _ _

@[simp] theorem next_remove (h : Handle k) :
    ((t.remove h).store.roster j).next = (t.store.roster j).next := by
  rcases t.remove_cases h with same | ⟨_, _, _, removed⟩
  · rw [same]
  · rw [removed]
    exact Store.next_erase _ _ _

@[simp] theorem next_attach (id : RequestId) (path : Path) :
    ((t.attach id path).store.roster j).next = (t.store.roster j).next := by
  unfold attach
  split
  · rfl
  · simp [log]

@[simp] theorem next_detach (id : RequestId) :
    ((t.detach id).store.roster j).next = (t.store.roster j).next := by
  unfold detach
  split
  · rfl
  · split <;> simp [log]

end lookups
end Transaction
end FlowAdmission
