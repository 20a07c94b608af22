import FlowAdmission.Cost.Model

/-!
# Token bucket admission

A queue takes a request while the reserved rates stay within the queue's share of the link rate
and the reserved bursts fit its buffer. A packet waits at most until the queue's own buffer and
those served before it have drained, and then travels the link.
-/
namespace FlowAdmission

/-- What is reserved on one queue. -/
structure Reservation (K : Type) where
  rate : K
  burst : K
  /-- How many registered paths cross the queue, counted with their repetitions. -/
  requests : Nat
  deriving DecidableEq

/-- Reservations by queue edge. A queue that nothing is reserved on has no entry. -/
structure TokenBucket (K : Type) where
  entries : Std.ExtTreeMap EdgeId (Reservation K)

namespace TokenBucket
variable {K : Type} [Quantity K]

def empty : TokenBucket K := ⟨∅⟩

def reservation (ledger : TokenBucket K) (e : EdgeId) : Reservation K :=
  ledger.entries[e]?.getD ⟨0, 0, 0⟩

def hasRoom (ledger : TokenBucket K) (net : Network K) (e : EdgeId) (request : Request K) :
    Bool :=
  match net.queue? e with
  | none => false
  | some (link, queue) =>
    let reserved := ledger.reservation e
    decide (reserved.rate + request.rate ≤ queue.capacity link) &&
      decide (reserved.burst + request.burst ≤ queue.buffer)

/-- Every queue costs one hop. -/
def hopCost? (net : Network K) (e : EdgeId) : Option K := (net.queue? e).map fun _ => 1

/-- Bytes that may stand before a packet of this queue. -/
def backlog (link : Link K) (queue : Queue K) : K :=
  Weight.total ((link.queues.filter (·.priority ≤ queue.priority)).map (·.buffer))

def queueDelay? (net : Network K) (e : EdgeId) : Option K :=
  (net.queue? e).map fun (link, queue) => backlog link queue / link.rate + link.propagationDelay

/-- Reserves one crossing of a queue. -/
def charge (request : Request K) (ledger : TokenBucket K) (e : EdgeId) : TokenBucket K :=
  let held := ledger.reservation e
  ⟨ledger.entries.insert e
    ⟨held.rate + request.rate, held.burst + request.burst, held.requests + 1⟩⟩

/-- Gives one crossing of a queue back; the last one takes the entry away. -/
def refund (request : Request K) (ledger : TokenBucket K) (e : EdgeId) : TokenBucket K :=
  match ledger.entries[e]? with
  | none => ledger
  | some held =>
    if held.requests ≤ 1 then ⟨ledger.entries.erase e⟩
    else ⟨ledger.entries.insert e
      ⟨Quantity.remainder (held.rate - request.rate),
        Quantity.remainder (held.burst - request.burst), held.requests - 1⟩⟩

theorem reservation_charge (request : Request K) (ledger : TokenBucket K) (e i : EdgeId) :
    (charge request ledger e).reservation i =
      if e = i then
        ⟨(ledger.reservation e).rate + request.rate, (ledger.reservation e).burst + request.burst,
          (ledger.reservation e).requests + 1⟩
      else ledger.reservation i := by
  simp only [charge, reservation, Std.ExtTreeMap.getElem?_insert, Nat.compare_eq_eq]
  split <;> rfl

/-- A refund on one queue leaves every other queue alone. -/
theorem reservation_refund_of_ne (request : Request K) (ledger : TokenBucket K) {e i : EdgeId}
    (h : e ≠ i) : (refund request ledger e).reservation i = ledger.reservation i := by
  unfold refund
  split
  · rfl
  · split <;>
      simp [reservation, Std.ExtTreeMap.getElem?_insert, Std.ExtTreeMap.getElem?_erase, h]

/-- The last crossing leaves nothing reserved. -/
theorem reservation_refund_self (request : Request K) (ledger : TokenBucket K) (e : EdgeId) :
    (refund request ledger e).reservation e =
      if (ledger.reservation e).requests ≤ 1 then ⟨0, 0, 0⟩
      else
        ⟨Quantity.remainder ((ledger.reservation e).rate - request.rate),
          Quantity.remainder ((ledger.reservation e).burst - request.burst),
          (ledger.reservation e).requests - 1⟩ := by
  unfold refund
  cases found : ledger.entries[e]? with
  | none => simp [reservation, found]
  | some held => by_cases last : held.requests ≤ 1 <;> simp [reservation, found, last]

/-- A path is looked at edge by edge before any of its edges is charged. -/
instance : CostModel (TokenBucket K) K where
  hasAccess := hasRoom
  cost? _ net e _ := hopCost? net e
  delay? _ net e _ := queueDelay? net e
  register? ledger net path request :=
    if path.all (ledger.hasRoom net · request) then some (path.foldl (charge request) ledger)
    else none
  deregister? ledger _ path request :=
    if path.all fun e => 0 < (ledger.reservation e).requests then
      some (path.foldl (refund request) ledger)
    else none

end TokenBucket
end FlowAdmission
