import FlowAdmission.Proofs.Manager.Stability

/-!
# Reservation accounting

Through every run of a manager over a token bucket ledger, each queue reserves exactly what the
paths of the live requests need, and no path that was released is refused by the ledger
(`Operation.reservations_runAll`). Nothing is asked of the router, of the network or of the order
of the calls.

Reservations change at two places. An embedding registers a path before it is attached, and a
commit gives the released paths back after they are detached. In between the ledger is balanced
over the paths that the transaction is charged with: those released and those still held
(`Embedder.Accounted.commit`).
-/
namespace FlowAdmission
variable {R K : Type}

/-- A live request crosses a queue as often as its path runs over it. -/
theorem crossersAt_outstanding (e : EdgeId) (s : Store K) :
    crossersAt e (crossed s.outstanding) =
      s.bookings.flatMap fun b => List.replicate (b.crossingsAt e) b.request := by
  rw [crossersAt_crossed]
  unfold Store.outstanding
  induction s.bookings with
  | nil => rfl
  | cons b rest ih =>
    rw [List.flatMap_cons, ← ih]
    cases held : b.path with
    | none => simp [Booking.held?, Booking.crossingsAt, held]
    | some path => simp [Booking.held?, Booking.crossingsAt, held]

variable [Quantity K]

namespace Embedder
open Transaction

/-- The ledger reserves what the live requests hold, and it has taken back every released path. -/
structure Accounted (x : Embedder R (TokenBucket K) K) : Prop where
  numbered : x.store.Numbered
  mirrored : x.store.Mirrored
  measured : ∀ item ∈ x.store.outstanding, item.2.Measured
  balanced : x.costs.Balanced x.store.outstanding
  refused : x.refused = []

namespace Accounted
variable {x : Embedder R (TokenBucket K) K} {t : Transaction K}

theorem measured_charged {attached : List (Path × Request K)} (accounted : x.Accounted)
    (steps : Steps attached x.store.begin t) (measured : ∀ item ∈ attached, item.2.Measured) :
    ∀ item ∈ t.released ++ t.store.outstanding, item.2.Measured := by
  intro item held
  rcases List.mem_append.mp ((steps.perm_begin accounted.numbered).mem_iff.mp held) with new | old
  · exact measured item new
  · exact accounted.measured item old

/-- The end of a transaction gives back what it released. What it attached has been charged. -/
theorem commit {attached : List (Path × Request K)} (accounted : x.Accounted)
    {costs : TokenBucket K} {router : R} (steps : Steps attached x.store.begin t)
    (measured : ∀ item ∈ attached, item.2.Measured)
    (charged : costs.Balanced (attached ++ x.store.outstanding)) (net : Network K) :
    (Embedder.commit { x with router, costs } net t).Accounted := by
  have perm := steps.perm_begin accounted.numbered
  have all_measured := accounted.measured_charged steps measured
  obtain ⟨balanced, taken_back⟩ := (charged.perm perm.symm).giveBack
    (fun item released => all_measured item (List.mem_append_left _ released)) net
  have same := outstanding_unlocked t
  have follows := steps.follows_commit accounted.numbered accounted.mirrored
  refine ⟨follows.numbered, follows.mirrored, ?_, ?_, ?_⟩
  · intro item held
    exact all_measured item (List.mem_append_right _ (same ▸ held))
  · show (CostModel.giveBack costs net t.released).Balanced t.unlocked.outstanding
    rwa [same]
  · show x.refused ++ CostModel.passedOver costs net t.released = []
    rw [accounted.refused, taken_back, List.append_nil]

/-- A transaction that attaches nothing. -/
theorem commit_quiet (accounted : x.Accounted) (steps : Steps [] x.store.begin t)
    (net : Network K) : (x.commit net t).Accounted :=
  accounted.commit steps (by simp) accounted.balanced net

/-- A transaction that is undone leaves what it found. -/
theorem rollback {attached : List (Path × Request K)} (accounted : x.Accounted)
    (steps : Steps attached x.store.begin t) (router : R) :
    Accounted { x with store := t.rollback, router } := by
  obtain ⟨follows, same⟩ := steps.follows_rollback accounted.numbered accounted.mirrored
  refine ⟨follows.numbered, follows.mirrored, ?_, ?_, accounted.refused⟩
  · show ∀ item ∈ t.rollback.outstanding, item.2.Measured
    rw [same.outstanding]
    exact accounted.measured
  · show x.costs.Balanced t.rollback.outstanding
    rw [same.outstanding]
    exact accounted.balanced

/-- A live request is as measured as the one it was made from. -/
theorem measured_routed (accounted : x.Accounted) {flow : FlowId} {id : RequestId}
    {request : Request K} {path : Path}
    (routed : Rerouting.routed? x.store flow = some (id, request, path)) : request.Measured := by
  obtain ⟨_, booking, _, _, live, rfl, held⟩ := Rerouting.routed?_eq_some routed
  exact accounted.measured (path, booking.request)
    (Store.mem_outstanding.mpr ⟨id, booking, live, held, rfl⟩)

variable [Router R (TokenBucket K) K]

/-- An embedding registers exactly the path that it attaches. -/
theorem embed (accounted : x.Accounted) (net : Network K) (penalized : Std.ExtTreeSet EdgeId)
    {request : Request K} (measured : request.Measured) (replaces : Option RequestId) :
    (x.embed net penalized request replaces).2.Accounted := by
  have stored := steps_insert (k := .request) x.store.begin
    ({ request, replaces } : Booking K) (rfl : none = none)
  rcases x.embed_cases net penalized request replaces with
    ⟨router, undone⟩ | ⟨router, path, costs, _, registered, kept⟩
  · rw [undone]
    exact accounted.rollback stored router
  · rw [kept]
    have attached := steps_embedded x.store ({ request, replaces } : Booking K) path rfl
    refine accounted.commit attached ?_ (accounted.balanced.register registered) net
    intro item new
    obtain rfl := List.mem_singleton.mp new
    exact measured

/-- Accounts are kept by whatever happens on a network, and so by every call. -/
theorem stable (net : Network K) :
    Stable net (Accounted : Embedder R (TokenBucket K) K → Prop) where
  commit accounted steps := accounted.commit_quiet steps net
  rollback accounted steps := accounted.rollback steps _
  embed penalized _ replaces accounted measured := accounted.embed net penalized measured replaces
  measured accounted routed := accounted.measured_routed routed

end Accounted
end Embedder

namespace Operation

theorem accounted_start (net : Network K) (router : R)
    (configuration : Option Rerouting.Configuration) :
    (Manager.start net router (TokenBucket.empty : TokenBucket K)
      configuration).toEmbedder.Accounted :=
  ⟨Store.numbered_empty, Store.mirrored_empty, by simp [Manager.start],
    by simpa [Manager.start] using TokenBucket.Balanced.nothing, rfl⟩

variable [Router R (TokenBucket K) K]

theorem accounted_runAll {m : Manager R (TokenBucket K) K} (accounted : m.toEmbedder.Accounted)
    (operations : List (Operation K)) : (runAll m operations).toEmbedder.Accounted := by
  induction operations generalizing m with
  | nil => exact accounted
  | cons operation rest ih =>
    have stable := Embedder.Accounted.stable (R := R) m.network
    exact ih (stable.run accounted operation)

/-- After any run each queue reserves what the paths of the live requests need: one request for
every crossing, no rate and no burst where nothing crosses, and where arithmetic is exact the rate
and the burst of every crossing request, as often as it crosses. No released path has been refused
by the ledger. -/
theorem reservations_runAll (net : Network K) (router : R)
    (configuration : Option Rerouting.Configuration) (operations : List (Operation K)) :
    let m := runAll (Manager.start net router (TokenBucket.empty : TokenBucket K) configuration)
      operations
    m.refused = [] ∧
    ∀ e : EdgeId,
      let reserved := m.costs.reservation e
      reserved.requests = (m.store.bookings.map (·.crossingsAt e)).sum ∧
      ((m.store.bookings.map (·.crossingsAt e)).sum = 0 →
        reserved.rate = 0 ∧ reserved.burst = 0) ∧
      (∀ [Exact K],
        reserved.rate = Weight.total (m.store.bookings.flatMap fun b =>
          List.replicate (b.crossingsAt e) b.request.rate) ∧
        reserved.burst = Weight.total (m.store.bookings.flatMap fun b =>
          List.replicate (b.crossingsAt e) b.request.burst)) := by
  intro m
  have accounted : m.toEmbedder.Accounted :=
    accounted_runAll (accounted_start net router configuration) operations
  refine ⟨accounted.refused, fun e => ?_⟩
  obtain ⟨requests, rate, burst⟩ := accounted.balanced e
  rw [crossersAt_outstanding] at requests rate burst
  have count : (m.store.bookings.flatMap fun b =>
      List.replicate (b.crossingsAt e) b.request).length =
        (m.store.bookings.map (·.crossingsAt e)).sum := by simp [List.length_flatMap]
  have measured : ∀ q ∈ m.store.bookings.flatMap fun b =>
      List.replicate (b.crossingsAt e) b.request, q.Measured := by
    intro q crosses
    obtain ⟨b, live, repeated⟩ := List.mem_flatMap.mp crosses
    obtain ⟨crossing, rfl⟩ := List.mem_replicate.mp repeated
    obtain ⟨id, found⟩ := Store.mem_bookings.mp live
    cases held : b.path with
    | none => simp [Booking.crossingsAt, held] at crossing
    | some path =>
      exact accounted.measured (path, b.request)
        (Store.mem_outstanding.mpr ⟨id, b, found, held, rfl⟩)
  refine ⟨requests.trans count, fun idle => ?_, ?_⟩
  · rw [← count, List.length_eq_zero_iff] at idle
    exact ⟨rate.idle idle, burst.idle idle⟩
  · intro _
    refine ⟨(rate.sum fun q hq => (measured q hq).1).trans ?_,
      (burst.sum fun q hq => (measured q hq).2).trans ?_⟩ <;>
      simp [List.map_flatMap]

end Operation
end FlowAdmission
