import FlowAdmission.Proofs.Store.Sessions
import Mathlib.Data.List.Sort

/-!
# Crossings and paths

The crossings are an index of the paths of live requests. The index is right after every session,
kept or dropped: the requests on an edge are the live ones whose path runs over it, oldest first
(`Session.requestsOn_runAll`). In a session that is kept every change has to leave a booking the
edges that its path runs over (`Action.Faithful`). One that is dropped may change bookings in any
way, as long as no path is attached over crossings that are there, and none is detached without
its crossings (`Action.Reversible`).

No less will do. A change is made without a look at the crossings, so one that takes a path off its
booking leaves them behind; a path that is attached then is entered over them, and its inverse
strikes off what stood there before (`Session.stale_crossings`).
-/
namespace FlowAdmission
variable {K : Type} {k : Kind}

namespace Store
variable {s s' : Store K}

/-- Live requests whose path runs over an edge, in order of creation. -/
def carriers (s : Store K) (e : EdgeId) : List RequestId :=
  (s.handles .request).filter (e ∈ s.edgesOf ·)

theorem mem_carriers {e : EdgeId} {id : RequestId} : id ∈ s.carriers e ↔ e ∈ s.edgesOf id := by
  simp only [carriers, List.mem_filter, decide_eq_true_eq, mem_handles, and_iff_right_iff_imp]
  intro on_path
  change (s.request? id).isSome
  cases live : s.request? id with
  | none => simp [edgesOf_of_absent live] at on_path
  | some b => rfl

/-- Lists of requests in order of creation are equal when they have the same members. -/
theorem eq_of_ascending {ids others : List RequestId}
    (ascending : ids.Pairwise (·.index < ·.index))
    (ascending' : others.Pairwise (·.index < ·.index)) (same : ∀ id, id ∈ ids ↔ id ∈ others) :
    ids = others := by
  have : Std.Irrefl fun a b : RequestId => a.index < b.index := ⟨fun a => Nat.lt_irrefl a.index⟩
  have : Std.Antisymm fun a b : RequestId => a.index < b.index :=
    ⟨fun a b before after => absurd after (Nat.lt_asymm before)⟩
  exact ascending.eq_of_mem_iff ascending' same

theorem ascending_carriers (s : Store K) (e : EdgeId) :
    (s.carriers e).Pairwise (·.index < ·.index) := by
  have ordered := (s.roster .request).entries.ordered_keys
  refine List.Pairwise.filter _ (List.pairwise_map.mpr (ordered.imp fun before => ?_))
  exact Nat.compare_eq_lt.mp before

theorem ascending_requestsOn (s : Store K) (e : EdgeId) :
    (s.requestsOn e).Pairwise (·.index < ·.index) := by
  refine List.pairwise_map.mpr (s.crossings.ordered_toList.filter _ |>.imp_of_mem ?_)
  intro a b mem mem' before
  have here : a.edge = e := eq_of_beq (List.mem_filter.mp mem).2
  have here' : b.edge = e := eq_of_beq (List.mem_filter.mp mem').2
  have by_request : compare a b =
      (compare a.edge b.edge).then (compare a.request.index b.request.index) := rfl
  have same : compare e e = .eq := Std.ReflCmp.compare_self
  rw [by_request, here, here', same] at before
  exact Nat.compare_eq_lt.mp before

theorem mirrored_iff_requestsOn : s.Mirrored ↔ ∀ e, s.requestsOn e = s.carriers e := by
  rw [mirrored_iff]
  constructor
  · intro mirrored e
    refine eq_of_ascending (s.ascending_requestsOn e) (s.ascending_carriers e) fun id => ?_
    rw [mem_requestsOn, mem_carriers]
    exact mirrored ⟨e, id⟩
  · intro right c
    rw [← mem_carriers, ← right c.edge, mem_requestsOn]

end Store

namespace Session
open Transaction

/-- A session that is kept is made of faithful operations, and one that is dropped of operations
that can be taken back. -/
def Careful (s : Store K) : Session K → Prop
  | ⟨actions, true⟩ => s.begin.Obeys Action.Faithful actions
  | ⟨actions, false⟩ => s.begin.Obeys Action.Reversible actions

instance (s : Store K) (session : Session K) : Decidable (session.Careful s) := by
  obtain ⟨actions, _ | _⟩ := session <;> unfold Careful <;> infer_instance

/-- Every session is careful with the store that the ones before it left. -/
def AllCareful (s : Store K) : List (Session K) → Prop
  | [] => True
  | session :: rest => session.Careful s ∧ AllCareful (session.run s).1 rest

instance decidableAllCareful (s : Store K) (sessions : List (Session K)) :
    Decidable (AllCareful s sessions) := by
  induction sessions generalizing s with
  | nil => exact .isTrue trivial
  | cons session rest ih => exact @instDecidableAnd _ _ _ (ih _)

variable {s : Store K} {actions : List (Action K)}

/-- A dropped session leaves every record and crossing as it was, if all of it can be taken back. -/
theorem sameRecords_dropped (numbered : s.Numbered)
    (reversible : s.begin.Obeys Action.Reversible actions) :
    Store.SameRecords s (run s ⟨actions, false⟩).1 := by
  have same := restored_of_reversible reversible numbered
  exact (rollback_of_restored same (holds_runAll (holds_begin s) actions)).1

theorem mirrored_run {session : Session K} (numbered : s.Numbered) (mirrored : s.Mirrored)
    (careful : session.Careful s) : (session.run s).1.Mirrored := by
  obtain ⟨actions, kept⟩ := session
  cases kept with
  | false => exact (sameRecords_dropped numbered careful).mirrored mirrored
  | true =>
    obtain ⟨mirrored', _⟩ := mirrored_of_faithful careful numbered mirrored
    intro c
    simpa [run, commit, Store.request?] using mirrored' c

theorem mirrored_runAll {sessions : List (Session K)} (numbered : s.Numbered)
    (mirrored : s.Mirrored) (careful : AllCareful s sessions) :
    (runAll s sessions).Mirrored := by
  induction sessions generalizing s with
  | nil => exact mirrored
  | cons session rest ih =>
    exact ih (numbered_run numbered session) (mirrored_run numbered mirrored careful.1) careful.2

/-- A single change that is kept leaves the index right exactly when it is faithful. -/
theorem mirrored_update (mirrored : s.Mirrored) (h : Handle k)
    (change : Record K k → Record K k) :
    (run s ⟨[.update h change], true⟩).1.Mirrored ↔ (Action.update h change).Faithful s := by
  have before : s.begin.store.Mirrored := mirrored
  refine Iff.trans (forall_congr' fun c => ?_) (Action.mirrored_update_iff before)
  simp [run, commit, Transaction.runAll, Action.run, Store.request?]

/-- After every run of careful sessions on a fresh store the requests on an edge are the live ones
whose path runs over it. A session that is dropped then leaves them as they were, if all of it can
be taken back. A single change that is kept leaves them right exactly when it is faithful. -/
theorem requestsOn_runAll (sessions : List (Session K)) (careful : AllCareful .empty sessions) :
    let s := runAll .empty sessions
    (∀ e, s.requestsOn e = s.carriers e) ∧
      (∀ actions, s.begin.Obeys Action.Reversible actions →
        ∀ e, (run s ⟨actions, false⟩).1.requestsOn e = s.requestsOn e) ∧
      ∀ (k : Kind) (h : Handle k) (change : Record K k → Record K k),
        let after := (run s ⟨[.update h change], true⟩).1
        (∀ e, after.requestsOn e = after.carriers e) ↔ (Action.update h change).Faithful s := by
  intro s
  have numbered : s.Numbered := numbered_runAll Store.numbered_empty sessions
  have mirrored : s.Mirrored := mirrored_runAll Store.numbered_empty Store.mirrored_empty careful
  refine ⟨Store.mirrored_iff_requestsOn.mp mirrored, fun actions reversible e => ?_,
    fun k h change => ?_⟩
  · have same := sameRecords_dropped numbered reversible
    rw [Store.requestsOn, same.crossings, ← Store.requestsOn]
  · exact Store.mirrored_iff_requestsOn.symm.trans (mirrored_update mirrored h change)

/-- Turns the path of a request around. -/
def turnAround (b : Booking Rat) : Booking Rat := { b with path := b.path.map List.reverse }

/-- Takes a request off its path for another request. -/
def startOver (b : Booking Rat) : Booking Rat := { request := { b.request with rate := 20 } }

/-- A request turns its path around and is started over, which is taken back. Starting it over for
good is not faithful. -/
theorem requestsOn_runAll_sample :
    let sessions : List (Session Rat) :=
      [⟨sampleSetup, true⟩, ⟨[.update (k := .request) ⟨0⟩ turnAround], true⟩,
        ⟨[.update (k := .request) ⟨0⟩ startOver, .detach ⟨0⟩], false⟩]
    let s := runAll .empty sessions
    (s.requestsOn 5 = [⟨0⟩] ∧ s.requestsOn 5 = s.carriers 5) ∧
      (run s ⟨sampleActions, false⟩).1.requestsOn 5 = s.requestsOn 5 ∧
      ¬∀ e, (run s ⟨[.update (k := .request) ⟨0⟩ startOver], true⟩).1.requestsOn e =
        (run s ⟨[.update (k := .request) ⟨0⟩ startOver], true⟩).1.carriers e := by
  intro sessions s
  obtain ⟨right, dropped, single⟩ := requestsOn_runAll sessions (by decide +kernel)
  refine ⟨⟨by decide +kernel, right 5⟩, dropped sampleActions (by decide +kernel) 5, fun kept => ?_⟩
  have unfaithful : ¬(Action.update (k := .request) ⟨0⟩ startOver).Faithful s := by decide +kernel
  exact unfaithful ((single .request ⟨0⟩ startOver).mp kept)

/-- A request on two edges is started over. When that is kept, both still list it. When it is given
a path over the first edge and all is dropped, it is back on its old path, but the first edge does
not list it any more. -/
theorem stale_crossings :
    let s : Store Rat := runAll .empty [⟨sampleSetup, true⟩]
    let kept := (run s ⟨[.update (k := .request) ⟨0⟩ startOver], true⟩).1
    let dropped :=
      (run s ⟨[.update (k := .request) ⟨0⟩ startOver, .attach ⟨0⟩ [3]], false⟩).1
    (kept.requestsOn 3 = [⟨0⟩] ∧ kept.carriers 3 = []) ∧
      (s.requestsOn 3 = [⟨0⟩] ∧ dropped.requestsOn 3 = [] ∧ dropped.carriers 3 = [⟨0⟩]) := by
  decide +kernel

end Session
end FlowAdmission
