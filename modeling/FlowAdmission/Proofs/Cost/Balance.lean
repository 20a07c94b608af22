import FlowAdmission.Proofs.Exact
import FlowAdmission.Cost.TokenBucket

/-!
# The balance of a token bucket ledger

A ledger is balanced over a list of held paths when every queue reserves exactly what the crossings
of those paths need (`TokenBucket.Balanced`). Charging and refunding one crossing keeps every queue
exact, so a registered path can always be given back: a held path is never refused
(`Balanced.deregister`), and of a whole list of held paths none is passed over
(`Balanced.giveBack`).
-/
namespace FlowAdmission
variable {K : Type}

section crossings

/-- The crossings of the paths, each with the request whose path it is on. -/
def crossed (held : List (Path × Request K)) : List (EdgeId × Request K) :=
  held.flatMap fun item => item.1.map (·, item.2)

/-- The requests that cross a queue, as often as they cross it. -/
def crossersAt (e : EdgeId) (crossings : List (EdgeId × Request K)) : List (Request K) :=
  (crossings.filter (·.1 = e)).map (·.2)

theorem crossersAt_cons_self (e : EdgeId) (request : Request K)
    (crossings : List (EdgeId × Request K)) :
    crossersAt e ((e, request) :: crossings) = request :: crossersAt e crossings := by
  simp [crossersAt]

theorem crossersAt_cons_of_ne {e i : EdgeId} (h : e ≠ i) (request : Request K)
    (crossings : List (EdgeId × Request K)) :
    crossersAt i ((e, request) :: crossings) = crossersAt i crossings := by
  simp [crossersAt, h]

theorem crossersAt_perm (e : EdgeId) {crossings others : List (EdgeId × Request K)}
    (same : crossings.Perm others) : (crossersAt e crossings).Perm (crossersAt e others) :=
  (same.filter _).map _

/-- A request stands as often as its path crosses the queue. -/
theorem crossersAt_crossed (e : EdgeId) (held : List (Path × Request K)) :
    crossersAt e (crossed held) =
      held.flatMap fun item => List.replicate (item.1.count e) item.2 := by
  have one_path : ∀ (path : Path) (request : Request K),
      crossersAt e (path.map (·, request)) = List.replicate (path.count e) request := by
    intro path request
    induction path with
    | nil => rfl
    | cons i rest ih =>
      by_cases h : i = e
      · subst h
        rw [List.map_cons, crossersAt_cons_self, ih, List.count_cons_self, List.replicate_succ]
      · rw [List.map_cons, crossersAt_cons_of_ne h, ih, List.count_cons_of_ne h]
  induction held with
  | nil => rfl
  | cons item rest ih =>
    rw [List.flatMap_cons, ← one_path, ← ih]
    simp [crossersAt, crossed]

end crossings

variable [Quantity K]

/-- An amount is reserved for crossings that each need their share of it. Nothing is reserved for
no crossing; otherwise the amount is the sum of the shares where arithmetic is exact. -/
structure Reserves (held : K) (share : Request K → K) (crossers : List (Request K)) : Prop where
  idle : crossers = [] → held = 0
  sum : ∀ [Exact K], (∀ q ∈ crossers, Exact.IsAmount (share q)) →
    held = Weight.total (crossers.map share)

namespace Reserves
variable {held : K} {share : Request K → K} {crossers others : List (Request K)}
  {request : Request K}

theorem nothing : Reserves (0 : K) share [] := ⟨fun _ => rfl, fun _ => rfl⟩

theorem perm (reserves : Reserves held share crossers) (same : crossers.Perm others) :
    Reserves held share others := by
  constructor
  · intro same
    subst same
    exact reserves.idle same.eq_nil
  · intro _ amounts
    have amounts' : ∀ q ∈ crossers, Exact.IsAmount (share q) :=
      fun q hq => amounts q (same.mem_iff.mp hq)
    rw [reserves.sum amounts']
    exact Exact.total_perm (List.forall_mem_map.mpr amounts') (same.map share)

theorem cons (reserves : Reserves held share crossers) :
    Reserves (held + share request) share (request :: crossers) := by
  constructor
  · nofun
  · intro _ amounts
    have each : ∀ x ∈ share request :: crossers.map share, Exact.IsAmount x :=
      List.forall_mem_map.mpr amounts
    rw [reserves.sum fun q hq => amounts q (List.mem_cons_of_mem _ hq), List.map_cons,
      Exact.total_cons each]

/-- The shares of the others are left when one crossing of several ends. Of the shares only the
one that is taken out need be an amount. -/
theorem of_cons (reserves : Reserves held share (request :: crossers))
    (amount : ∀ [Exact K], Exact.IsAmount (share request)) (some_left : crossers ≠ []) :
    Reserves (Quantity.remainder (held - share request)) share crossers := by
  constructor
  · exact fun none_left => absurd none_left some_left
  · intro _ amounts
    have all : ∀ q ∈ request :: crossers, Exact.IsAmount (share q) :=
      List.forall_mem_cons.mpr ⟨amount, amounts⟩
    rw [reserves.sum all, List.map_cons]
    exact Exact.remainder_total_cons (List.forall_mem_map.mpr all)

end Reserves

/-- What is reserved is what the given requests need together, each for one crossing. -/
structure Reservation.Backs (held : Reservation K) (crossers : List (Request K)) : Prop where
  requests : held.requests = crossers.length
  rate : Reserves held.rate (·.rate) crossers
  burst : Reserves held.burst (·.burst) crossers

theorem Reservation.Backs.perm {held : Reservation K} {crossers others : List (Request K)}
    (backs : held.Backs crossers) (same : crossers.Perm others) : held.Backs others :=
  ⟨backs.requests.trans same.length_eq, backs.rate.perm same, backs.burst.perm same⟩

/-- Rate and burst are amounts, in whatever way the rationals are embedded. -/
def Request.Measured (request : Request K) : Prop :=
  ∀ [Exact K], Exact.IsAmount request.rate ∧ Exact.IsAmount request.burst

/-- Where arithmetic is exact, the crossing requests tell what is reserved. -/
theorem Reservation.Backs.unique [Exact K] {held held' : Reservation K}
    {crossers : List (Request K)} (backs : held.Backs crossers) (backs' : held'.Backs crossers)
    (measured : ∀ q ∈ crossers, q.Measured) : held = held' := by
  have rate := backs.rate.sum fun q crosses => (measured q crosses).1
  have rate' := backs'.rate.sum fun q crosses => (measured q crosses).1
  have burst := backs.burst.sum fun q crosses => (measured q crosses).2
  have burst' := backs'.burst.sum fun q crosses => (measured q crosses).2
  have requests := backs.requests.trans backs'.requests.symm
  cases held
  cases held'
  simp_all

namespace TokenBucket

/-- Every queue reserves what the given crossings of it need. -/
def Covers (ledger : TokenBucket K) (crossings : List (EdgeId × Request K)) : Prop :=
  ∀ e, (ledger.reservation e).Backs (crossersAt e crossings)

/-- Every queue reserves what the held paths need. -/
def Balanced (ledger : TokenBucket K) (held : List (Path × Request K)) : Prop :=
  ledger.Covers (crossed held)

theorem reservation_empty (e : EdgeId) : (empty : TokenBucket K).reservation e = ⟨0, 0, 0⟩ := by
  simp [empty, reservation]

namespace Covers
variable {ledger : TokenBucket K} {crossings others : List (EdgeId × Request K)}
  {e : EdgeId} {request : Request K}

theorem perm (covers : ledger.Covers crossings) (same : crossings.Perm others) :
    ledger.Covers others :=
  fun e => (covers e).perm (crossersAt_perm e same)

theorem charge (covers : ledger.Covers crossings) (e : EdgeId) (request : Request K) :
    (charge request ledger e).Covers ((e, request) :: crossings) := by
  intro i
  rw [reservation_charge]
  by_cases h : e = i
  · subst h
    obtain ⟨requests, rate, burst⟩ := covers e
    rw [if_pos rfl, crossersAt_cons_self]
    exact ⟨by rw [requests, List.length_cons], rate.cons, burst.cons⟩
  · rw [if_neg h, crossersAt_cons_of_ne h]
    exact covers i

/-- A covered crossing has a reservation. -/
theorem requests_pos (covers : ledger.Covers ((e, request) :: crossings)) :
    0 < (ledger.reservation e).requests := by
  have requests := (covers e).requests
  rw [crossersAt_cons_self, List.length_cons] at requests
  omega

theorem refund (covers : ledger.Covers ((e, request) :: crossings)) (measured : request.Measured) :
    (refund request ledger e).Covers crossings := by
  intro i
  by_cases h : e = i
  · subst h
    obtain ⟨requests, rate, burst⟩ := covers e
    have positive := covers.requests_pos
    rw [crossersAt_cons_self] at requests rate burst
    rw [List.length_cons] at requests
    rw [reservation_refund_self]
    by_cases last : (ledger.reservation e).requests ≤ 1
    · have alone : crossersAt e crossings = [] := List.length_eq_zero_iff.mp (by omega)
      rw [if_pos last, alone]
      exact ⟨rfl, .nothing, .nothing⟩
    · have some_left : crossersAt e crossings ≠ [] := by
        intro alone
        rw [alone, List.length_nil] at requests
        omega
      rw [if_neg last]
      refine ⟨?_, rate.of_cons measured.1 some_left, burst.of_cons measured.2 some_left⟩
      show (ledger.reservation e).requests - 1 = _
      omega
  · rw [reservation_refund_of_ne _ _ h, ← crossersAt_cons_of_ne h request]
    exact covers i

/-- Charging a path covers its crossings on top of the others. -/
theorem charge_path (covers : ledger.Covers crossings) (path : Path) (request : Request K) :
    (path.foldl (TokenBucket.charge request) ledger).Covers
      (path.map (·, request) ++ crossings) := by
  induction path generalizing ledger crossings with
  | nil => exact covers
  | cons e rest ih =>
    have charged := ih (covers.charge e request)
    exact charged.perm List.perm_middle

/-- Every edge of a covered path can be refunded. -/
theorem path_reserved {path : Path}
    (covers : ledger.Covers (path.map (·, request) ++ crossings)) :
    ∀ e ∈ path, 0 < (ledger.reservation e).requests := by
  intro e on_path
  obtain ⟨before, after, rfl⟩ := List.append_of_mem on_path
  have front : (((before ++ e :: after).map (·, request)) ++ crossings).Perm
      ((e, request) :: ((before ++ after).map (·, request) ++ crossings)) := by
    simp
  exact (covers.perm front).requests_pos

theorem refund_path {path : Path} (covers : ledger.Covers (path.map (·, request) ++ crossings))
    (measured : request.Measured) :
    (path.foldl (TokenBucket.refund request) ledger).Covers crossings := by
  induction path generalizing ledger with
  | nil => exact covers
  | cons e rest ih => exact ih (covers.refund measured)

end Covers

namespace Balanced
variable {ledger : TokenBucket K} {held others : List (Path × Request K)} {net : Network K}
  {path : Path} {request : Request K}

theorem nothing : (empty : TokenBucket K).Balanced [] := by
  intro e
  rw [reservation_empty]
  exact ⟨rfl, .nothing, .nothing⟩

theorem perm (balanced : ledger.Balanced held) (same : held.Perm others) :
    ledger.Balanced others :=
  Covers.perm balanced (same.flatMap_right _)

/-- Where arithmetic is exact, the held paths tell what each queue reserves. -/
theorem unique [Exact K] {ledger' : TokenBucket K} (balanced : ledger.Balanced held)
    (balanced' : ledger'.Balanced held) (measured : ∀ item ∈ held, item.2.Measured)
    (e : EdgeId) : ledger.reservation e = ledger'.reservation e := by
  refine (balanced e).unique (balanced' e) fun q crosses => ?_
  rw [crossersAt_crossed] at crosses
  obtain ⟨item, on_path, repeated⟩ := List.mem_flatMap.mp crosses
  obtain ⟨_, rfl⟩ := List.mem_replicate.mp repeated
  exact @measured item on_path

/-- A registered path is held with the others. -/
theorem register {after : TokenBucket K} (balanced : ledger.Balanced held)
    (registered : CostModel.register? ledger net path request = some after) :
    after.Balanced ((path, request) :: held) := by
  simp only [CostModel.register?] at registered
  split at registered
  · cases registered
    exact Covers.charge_path balanced path request
  · cases registered

/-- A held path can be given back. -/
theorem deregister (balanced : ledger.Balanced ((path, request) :: held))
    (measured : request.Measured) (net : Network K) :
    ∃ after : TokenBucket K,
      CostModel.deregister? ledger net path request = some after ∧ after.Balanced held := by
  have reserved : path.all (fun e => 0 < (ledger.reservation e).requests) := by
    simpa using Covers.path_reserved balanced
  exact ⟨_, if_pos reserved, Covers.refund_path balanced measured⟩

/-- Held paths are given back one after the other, and the cost model takes back each of them. -/
theorem giveBack {released : List (Path × Request K)}
    (balanced : ledger.Balanced (released ++ held))
    (measured : ∀ item ∈ released, item.2.Measured) (net : Network K) :
    (CostModel.giveBack ledger net released).Balanced held ∧
      CostModel.passedOver ledger net released = [] := by
  induction released generalizing ledger with
  | nil => exact ⟨balanced, rfl⟩
  | cons item rest ih =>
    obtain ⟨first, others⟩ := List.forall_mem_cons.mp measured
    obtain ⟨after, taken, left⟩ := Balanced.deregister balanced first net
    have back := ih left others
    simpa only [CostModel.giveBack, CostModel.passedOver, List.foldl_cons, taken,
      Option.getD_some] using back

end Balanced
end TokenBucket
end FlowAdmission
