import FlowAdmission.Proofs.Cost.Balance
import FlowAdmission.Proofs.Network.Growth

/-!
# No queue gives away more than it has

A ledger stays within a network when each queue reserves no more than its share of the link rate
and no more bursts than its buffer holds (`TokenBucket.Within`). A path is looked at edge by edge
before it is charged, so a path that crosses no queue twice keeps the ledger within
(`Within.register`). Giving paths back leaves sums of fewer amounts (`Within.less`), and a queue
that is new to the network has nothing reserved (`Within.grow`).
-/
namespace FlowAdmission
variable {K : Type}

theorem crossersAt_append (e : EdgeId) (held others : List (Path × Request K)) :
    crossersAt e (crossed (held ++ others)) =
      crossersAt e (crossed held) ++ crossersAt e (crossed others) := by
  simp [crossersAt, crossed]

theorem exists_of_mem_crossersAt {e : EdgeId} {held : List (Path × Request K)}
    {request : Request K} (crosses : request ∈ crossersAt e (crossed held)) :
    ∃ item ∈ held, e ∈ item.1 ∧ item.2 = request := by
  rw [crossersAt_crossed] at crosses
  obtain ⟨item, mem, repeated⟩ := List.mem_flatMap.mp crosses
  obtain ⟨crossing, rfl⟩ := List.mem_replicate.mp repeated
  exact ⟨item, mem, List.count_pos_iff.mp (Nat.pos_of_ne_zero crossing), rfl⟩

variable [Quantity K]

/-- With some of the requests gone no more is reserved. -/
theorem Reserves.le [Exact K] {held held' : K} {share : Request K → K}
    {gone left : List (Request K)} (before : Reserves held share (gone ++ left))
    (after : Reserves held' share left)
    (amounts : ∀ q ∈ gone ++ left, Exact.IsAmount (share q)) : held' ≤ held := by
  rw [before.sum amounts, after.sum fun q mem => amounts q (List.mem_append_right _ mem),
    List.map_append]
  refine Exact.total_le_append fun x mem => ?_
  rw [← List.map_append] at mem
  obtain ⟨q, crosses, rfl⟩ := List.mem_map.mp mem
  exact amounts q crosses

namespace Network.Sized
variable [Exact.Ordered K] {link : Link K} {queue : Queue K}

theorem capacity_nonneg (sized : Sized link) (mem : queue ∈ link.queues) :
    0 ≤ queue.capacity link := by
  obtain ⟨n, positive, share⟩ := sized.share queue mem
  rw [Queue.capacity, share]
  exact Exact.Ordered.mul_nonneg sized.rate (Exact.share_pos positive)

theorem buffer_nonneg (sized : Sized link) (mem : queue ∈ link.queues) : 0 ≤ queue.buffer :=
  Exact.Ordered.le_of_lt (sized.buffer queue mem)

end Network.Sized

/-- What is reserved with one more crossing. -/
def Reservation.plus (request : Request K) (held : Reservation K) : Reservation K :=
  ⟨held.rate + request.rate, held.burst + request.burst, held.requests + 1⟩

namespace TokenBucket
variable {ledger after : TokenBucket K} {net net' : Network K} {path : Path} {request : Request K}
  {held released : List (Path × Request K)} {e : EdgeId}

/-- The queue reserves at most its share of the link rate, and at most its buffer. -/
def Fits (ledger : TokenBucket K) (e : EdgeId) (link : Link K) (queue : Queue K) : Prop :=
  (ledger.reservation e).rate ≤ link.rate * queue.rateShare ∧
    (ledger.reservation e).burst ≤ queue.buffer

/-- All queues reserve no more than they have. -/
def Within (ledger : TokenBucket K) (net : Network K) : Prop :=
  ∀ e link queue, net.queue? e = some (link, queue) → ledger.Fits e link queue

/-- A path charges a queue once for every crossing. -/
theorem reservation_foldl_charge (ledger : TokenBucket K) (path : Path) (request : Request K)
    (e : EdgeId) :
    (path.foldl (charge request) ledger).reservation e =
      (Reservation.plus request)^[path.count e] (ledger.reservation e) := by
  induction path generalizing ledger with
  | nil => rfl
  | cons i rest ih =>
    rw [List.foldl_cons, ih, reservation_charge]
    by_cases here : i = e
    · subst here
      rw [if_pos rfl, List.count_cons_self]
      rfl
    · rw [if_neg here, List.count_cons_of_ne here]

theorem hasRoom_iff : ledger.hasRoom net e request = true ↔
    ∃ link queue, net.queue? e = some (link, queue) ∧
      (ledger.reservation e).rate + request.rate ≤ queue.capacity link ∧
      (ledger.reservation e).burst + request.burst ≤ queue.buffer := by
  unfold hasRoom
  cases found : net.queue? e with
  | none => simp
  | some item => simp [Prod.ext_iff]

/-- A path is registered when every queue on it has room for one more crossing, and then each
crossing is charged. -/
theorem register?_eq_some :
    CostModel.register? ledger net path request = some after ↔
      (∀ e ∈ path, ledger.hasRoom net e request = true) ∧
        path.foldl (charge request) ledger = after := by
  simp [CostModel.register?]

/-- A queue that the path crosses at most once was asked for all that it is charged. -/
theorem Fits.register {link : Link K} {queue : Queue K} (fits : ledger.Fits e link queue)
    (found : net.queue? e = some (link, queue)) (once : path.count e ≤ 1)
    (registered : CostModel.register? ledger net path request = some after) :
    after.Fits e link queue := by
  obtain ⟨room, rfl⟩ := register?_eq_some.mp registered
  unfold Fits
  rw [reservation_foldl_charge]
  obtain none | one : path.count e = 0 ∨ path.count e = 1 := by omega
  · rw [none]
    exact fits
  · rw [one]
    have on_path : e ∈ path := List.count_pos_iff.mp (by omega)
    obtain ⟨link', queue', found', room⟩ := hasRoom_iff.mp (room e on_path)
    rw [found] at found'
    cases found'
    exact room

/-- Nothing is reserved on a queue that no held path crosses. -/
theorem Balanced.idle (balanced : ledger.Balanced held) (free : ∀ item ∈ held, e ∉ item.1) :
    (ledger.reservation e).rate = 0 ∧ (ledger.reservation e).burst = 0 := by
  obtain ⟨_, rate, burst⟩ := balanced e
  have alone : crossersAt e (crossed held) = [] := by
    refine List.eq_nil_iff_forall_not_mem.mpr fun request crosses => ?_
    obtain ⟨item, mem, on_path, _⟩ := exists_of_mem_crossersAt crosses
    exact free item mem on_path
  exact ⟨rate.idle alone, burst.idle alone⟩

/-- Where nothing is reserved no queue gives away too much. -/
theorem fits_of_idle [Exact.Ordered K] {link : Link K} {queue : Queue K} (wired : net.Wired)
    (found : net.queue? e = some (link, queue))
    (idle : (ledger.reservation e).rate = 0 ∧ (ledger.reservation e).burst = 0) :
    ledger.Fits e link queue := by
  obtain ⟨sized, mem⟩ := wired.sized_of_queue? found
  unfold Fits
  rw [idle.1, idle.2]
  exact ⟨sized.capacity_nonneg mem, sized.buffer_nonneg mem⟩

namespace Within

/-- Registering a path that crosses no queue twice. -/
theorem register (within : ledger.Within net) (distinct : path.Nodup)
    (registered : CostModel.register? ledger net path request = some after) :
    after.Within net := fun e link queue found =>
  (within e link queue found).register found (List.nodup_iff_count.mp distinct e) registered

variable [Exact.Ordered K]

/-- Fewer held paths reserve no more. -/
theorem less (within : ledger.Within net) (before : ledger.Balanced (released ++ held))
    (balanced : after.Balanced held) (measured : ∀ item ∈ released ++ held, item.2.Measured) :
    after.Within net := by
  intro e link queue found
  obtain ⟨rate, burst⟩ := within e link queue found
  have amounts : ∀ q ∈ crossersAt e (crossed released) ++ crossersAt e (crossed held),
      Exact.IsAmount q.rate ∧ Exact.IsAmount q.burst := by
    intro q crosses
    rw [← crossersAt_append] at crosses
    obtain ⟨item, mem, _, rfl⟩ := exists_of_mem_crossersAt crosses
    exact measured item mem
  obtain ⟨_, rates, bursts⟩ := before e
  obtain ⟨_, rates', bursts'⟩ := balanced e
  rw [crossersAt_append] at rates bursts
  exact ⟨Exact.Ordered.le_trans (rates.le rates' fun q mem => (amounts q mem).1) rate,
    Exact.Ordered.le_trans (bursts.le bursts' fun q mem => (amounts q mem).2) burst⟩

/-- A ledger stays within a network that grows, as long as the held paths run over the queues that
were there. -/
theorem grow (within : ledger.Within net) (extends_net : net.Extends net') (wired : net'.Wired)
    (balanced : ledger.Balanced held)
    (known : ∀ item ∈ held, ∀ e ∈ item.1, (net.queue? e).isSome) : ledger.Within net' := by
  intro e link queue found
  cases before : net.queue? e with
  | some item =>
    have same := extends_net.queues before
    rw [found] at same
    cases same
    exact within e _ _ before
  | none =>
    have free : ∀ item ∈ held, e ∉ item.1 := by
      intro item mem on_path
      have there := known item mem e on_path
      rw [before] at there
      cases there
    exact fits_of_idle wired found (balanced.idle free)

theorem nothing (wired : net.Wired) : (empty : TokenBucket K).Within net := by
  intro e link queue found
  refine fits_of_idle wired found ?_
  rw [reservation_empty]
  exact ⟨rfl, rfl⟩

end Within
end TokenBucket
end FlowAdmission
