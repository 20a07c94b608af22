import FlowAdmission.Proofs.Cost.Overbooking

/-!
# A ledger is its outstanding registrations

A run registers paths and releases, in any order, what it has registered (`Journal.Fair`). The
ledger it leaves does not tell the order: a registration that is outstanding can always be
released, every queue reserves what the outstanding registrations owe it
(`Reservation.owed`), and the ledger has entries for no other queue (`TokenBucket.Tidy`). Two runs
with the same registrations outstanding therefore end with the same ledger, and one that releases
everything ends with the empty one (`Journal.ledger_of_outstanding`).
-/
namespace FlowAdmission
variable {K : Type} [Quantity K]

namespace Exact
variable [Exact K]

/-- Amounts are the quotients of natural numbers, however the rationals are embedded. -/
theorem isAmount_iff {x : K} : IsAmount x ↔ ∃ m n : ℕ, 0 < n ∧ x = (m : K) / (n : K) := by
  constructor
  · rintro ⟨q, nonneg, rfl⟩
    have denominator : (q.den : ℚ) ≠ 0 := Nat.cast_ne_zero.mpr q.den_ne_zero
    have numerator : ((q.num.toNat : ℕ) : ℚ) = q.num := by
      exact_mod_cast Int.toNat_of_nonneg (Rat.num_nonneg.mpr nonneg)
    refine ⟨q.num.toNat, q.den, q.den_pos, ?_⟩
    rw [← value_natCast (K := K) q.den, ← value_natCast (K := K) q.num.toNat,
      ← value_div _ _ denominator, numerator, Rat.num_div_den]
  · rintro ⟨m, n, positive, rfl⟩
    exact (isAmount_natCast m).div_natCast positive

/-- A sum in which every amount stands several times. -/
theorem total_repeated {ι : Type} (items : List ι) (times : ι → ℕ) (share : ι → K)
    (amounts : ∀ i ∈ items, IsAmount (share i)) :
    Weight.total (items.flatMap fun i => List.replicate (times i) (share i)) =
      Weight.total (items.map fun i => (times i : K) * share i) := by
  have summed : ∃ qs ps : List ℚ,
      (items.flatMap fun i => List.replicate (times i) (share i)) = qs.map value ∧
        (items.map fun i => (times i : K) * share i) = ps.map value ∧ qs.sum = ps.sum := by
    induction items with
    | nil => exact ⟨[], [], rfl, rfl, rfl⟩
    | cons i rest ih =>
      obtain ⟨q, _, same⟩ := amounts i List.mem_cons_self
      obtain ⟨qs, ps, repeated, products, equal⟩ :=
        ih fun j mem => amounts j (List.mem_cons_of_mem _ mem)
      refine ⟨List.replicate (times i) q ++ qs, times i * q :: ps, ?_, ?_, ?_⟩
      · rw [List.flatMap_cons, repeated, same, List.map_append, List.map_replicate]
      · rw [List.map_cons, products, same, List.map_cons, value_mul, value_natCast]
      · rw [List.sum_append, List.sum_replicate, List.sum_cons, equal, nsmul_eq_mul]
  obtain ⟨qs, ps, repeated, products, equal⟩ := summed
  rw [repeated, products, total_values, total_values, equal]

end Exact

/-- Quotients of natural numbers are amounts in every reading of the rationals. -/
theorem Request.measured_of_quotients {request : Request K}
    (rate : ∃ m n : ℕ, 0 < n ∧ request.rate = (m : K) / (n : K))
    (burst : ∃ m n : ℕ, 0 < n ∧ request.burst = (m : K) / (n : K)) : request.Measured :=
  fun [Exact K] => ⟨Exact.isAmount_iff.mpr rate, Exact.isAmount_iff.mpr burst⟩

/-- What the registrations need of a queue together, each as often as its path crosses it. -/
def Reservation.owed (held : List (Path × Request K)) (e : EdgeId) : Reservation K where
  rate := Weight.total (held.map fun item => (item.1.count e : K) * item.2.rate)
  burst := Weight.total (held.map fun item => (item.1.count e : K) * item.2.burst)
  requests := (held.map fun item => item.1.count e).sum

namespace TokenBucket
variable {ledger ledger' : TokenBucket K} {held : List (Path × Request K)} {path : Path}

/-- The shares of the crossing requests, each counted as often as its path crosses the queue. -/
theorem total_crossersAt [Exact K] (e : EdgeId) (share : Request K → K)
    (amounts : ∀ item ∈ held, Exact.IsAmount (share item.2)) :
    Weight.total ((crossersAt e (crossed held)).map share) =
      Weight.total (held.map fun item => (item.1.count e : K) * share item.2) := by
  rw [crossersAt_crossed, List.map_flatMap]
  simp only [List.map_replicate]
  exact Exact.total_repeated held (fun item => item.1.count e) (fun item => share item.2) amounts

/-- A balanced ledger reserves what is owed. -/
theorem Balanced.reservation_eq [Exact K] (balanced : ledger.Balanced held)
    (measured : ∀ item ∈ held, item.2.Measured) (e : EdgeId) :
    ledger.reservation e = .owed held e := by
  have crossing : ∀ q ∈ crossersAt e (crossed held), q.Measured := by
    intro q crosses
    obtain ⟨item, mem, _, rfl⟩ := exists_of_mem_crossersAt crosses
    exact @measured item mem
  obtain ⟨requests, rate, burst⟩ := balanced e
  have rate := rate.sum fun q crosses => (crossing q crosses).1
  have burst := burst.sum fun q crosses => (crossing q crosses).2
  rw [total_crossersAt e _ fun item mem => (measured item mem).1] at rate
  rw [total_crossersAt e _ fun item mem => (measured item mem).2] at burst
  rw [crossersAt_crossed, List.length_flatMap] at requests
  simp only [List.length_replicate] at requests
  calc ledger.reservation e
      = ⟨(ledger.reservation e).rate, (ledger.reservation e).burst,
          (ledger.reservation e).requests⟩ := rfl
    _ = .owed held e := by rw [rate, burst, requests, Reservation.owed]

/-- Every entry stands for at least one crossing. -/
def Tidy (ledger : TokenBucket K) : Prop :=
  ∀ (e : EdgeId) (held : Reservation K), ledger.entries[e]? = some held → 0 < held.requests

namespace Tidy
variable {request : Request K}

omit [Quantity K] in
theorem nothing : (empty : TokenBucket K).Tidy := by
  intro e held found
  simp [empty] at found

theorem charge (tidy : ledger.Tidy) (e : EdgeId) : (charge request ledger e).Tidy := by
  intro i held found
  simp only [TokenBucket.charge, Std.ExtTreeMap.getElem?_insert] at found
  split at found
  · cases found
    exact Nat.succ_pos _
  · exact tidy i held found

theorem refund (tidy : ledger.Tidy) (e : EdgeId) : (refund request ledger e).Tidy := by
  intro i held found
  unfold TokenBucket.refund at found
  split at found
  · exact tidy i held found
  · split at found
    · rw [Std.ExtTreeMap.getElem?_erase] at found
      split at found
      · cases found
      · exact tidy i held found
    · rw [Std.ExtTreeMap.getElem?_insert] at found
      split at found
      · cases found
        dsimp only
        omega
      · exact tidy i held found

theorem charge_path (tidy : ledger.Tidy) (path : Path) :
    (path.foldl (TokenBucket.charge request) ledger).Tidy := by
  induction path generalizing ledger with
  | nil => exact tidy
  | cons e rest ih => exact ih (tidy.charge e)

theorem refund_path (tidy : ledger.Tidy) (path : Path) :
    (path.foldl (TokenBucket.refund request) ledger).Tidy := by
  induction path generalizing ledger with
  | nil => exact tidy
  | cons e rest ih => exact ih (tidy.refund e)

theorem register {net : Network K} {after : TokenBucket K} (tidy : ledger.Tidy)
    (registered : CostModel.register? ledger net path request = some after) : after.Tidy := by
  obtain ⟨_, charged⟩ := register?_eq_some.mp registered
  rw [← charged]
  exact tidy.charge_path path

theorem deregister {net : Network K} {after : TokenBucket K} (tidy : ledger.Tidy)
    (released : CostModel.deregister? ledger net path request = some after) : after.Tidy := by
  simp only [CostModel.deregister?] at released
  split at released
  · cases released
    exact tidy.refund_path path
  · cases released

theorem giveBack (tidy : ledger.Tidy) (net : Network K) (released : List (Path × Request K)) :
    (CostModel.giveBack ledger net released).Tidy := by
  induction released generalizing ledger with
  | nil => exact tidy
  | cons item rest ih =>
    rw [CostModel.giveBack, List.foldl_cons]
    cases taken : CostModel.deregister? ledger net item.1 item.2 with
    | none => exact ih tidy
    | some after => exact ih (tidy.deregister taken)

/-- Without an entry nothing is reserved, and an entry reserves something. -/
theorem eq_of_reservation (tidy : ledger.Tidy) (tidy' : ledger'.Tidy)
    (same : ∀ e, ledger.reservation e = ledger'.reservation e) : ledger = ledger' := by
  have entries : ledger.entries = ledger'.entries := by
    refine Std.ExtTreeMap.ext_getElem? fun e => ?_
    have equal := same e
    unfold reservation at equal
    cases found : ledger.entries[e]? with
    | none =>
      cases found' : ledger'.entries[e]? with
      | none => rfl
      | some held' =>
        have some_left := tidy' e held' found'
        simp only [found, found', Option.getD_none, Option.getD_some] at equal
        rw [← equal] at some_left
        exact absurd some_left (Nat.lt_irrefl 0)
    | some held =>
      cases found' : ledger'.entries[e]? with
      | none =>
        have some_left := tidy e held found
        simp only [found, found', Option.getD_none, Option.getD_some] at equal
        rw [equal] at some_left
        exact absurd some_left (Nat.lt_irrefl 0)
      | some held' =>
        simp only [found, found', Option.getD_some] at equal
        rw [equal]
  cases ledger
  cases ledger'
  exact congrArg TokenBucket.mk entries

end Tidy
end TokenBucket

/-- A call on a ledger. -/
inductive LedgerCall (K : Type)
  | register (path : Path) (request : Request K)
  | deregister (path : Path) (request : Request K)

/-- The path that a call is about, with its request. -/
def LedgerCall.item : LedgerCall K → Path × Request K
  | .register path request => (path, request)
  | .deregister path request => (path, request)

/-- A ledger with the registrations it accepted and has not released. -/
structure Journal (K : Type) where
  ledger : TokenBucket K
  outstanding : List (Path × Request K)

namespace Journal
variable [DecidableEq K]

def fresh : Journal K := ⟨.empty, []⟩

/-- One call. One that is refused leaves the journal as it is. -/
def run (net : Network K) (journal : Journal K) : LedgerCall K → Journal K
  | .register path request =>
    match CostModel.register? journal.ledger net path request with
    | some ledger => ⟨ledger, (path, request) :: journal.outstanding⟩
    | none => journal
  | .deregister path request =>
    match CostModel.deregister? journal.ledger net path request with
    | some ledger => ⟨ledger, journal.outstanding.erase (path, request)⟩
    | none => journal

def runAll (net : Network K) (journal : Journal K) (calls : List (LedgerCall K)) : Journal K :=
  calls.foldl (run net) journal

/-- Only a registration that is outstanding may be released. -/
def Permits (journal : Journal K) : LedgerCall K → Prop
  | .register _ _ => True
  | .deregister path request => (path, request) ∈ journal.outstanding

/-- Every call of the run is permitted when it is made. -/
def Fair (net : Network K) : Journal K → List (LedgerCall K) → Prop
  | _, [] => True
  | journal, call :: rest => journal.Permits call ∧ Fair net (run net journal call) rest

instance (journal : Journal K) : DecidablePred journal.Permits
  | .register _ _ => inferInstanceAs (Decidable True)
  | .deregister path request =>
    inferInstanceAs (Decidable ((path, request) ∈ journal.outstanding))

instance Fair.decide (net : Network K) :
    (journal : Journal K) → (calls : List (LedgerCall K)) → Decidable (Fair net journal calls)
  | _, [] => inferInstanceAs (Decidable True)
  | journal, call :: rest =>
    have := Fair.decide net (run net journal call) rest
    inferInstanceAs (Decidable (_ ∧ _))

/-- The ledger reserves for what is outstanding, and nothing else. -/
structure Kept (journal : Journal K) : Prop where
  balanced : journal.ledger.Balanced journal.outstanding
  tidy : journal.ledger.Tidy
  measured : ∀ item ∈ journal.outstanding, item.2.Measured

variable {net net' : Network K} {journal journal' : Journal K} {call : LedgerCall K}
  {calls before after : List (LedgerCall K)} {path : Path} {request : Request K}

theorem run_register {ledger : TokenBucket K}
    (registered : CostModel.register? journal.ledger net path request = some ledger) :
    journal.run net (.register path request) =
      ⟨ledger, (path, request) :: journal.outstanding⟩ := by
  simp only [run, registered]

theorem run_refused
    (refused : CostModel.register? journal.ledger net path request = none) :
    journal.run net (.register path request) = journal := by
  simp only [run, refused]

theorem run_deregister {ledger : TokenBucket K}
    (released : CostModel.deregister? journal.ledger net path request = some ledger) :
    journal.run net (.deregister path request) =
      ⟨ledger, journal.outstanding.erase (path, request)⟩ := by
  simp only [run, released]

theorem fair_append :
    Fair net journal (before ++ after) ↔
      Fair net journal before ∧ Fair net (runAll net journal before) after := by
  induction before generalizing journal with
  | nil => simp [Fair, runAll]
  | cons call rest ih =>
    simp only [List.cons_append, Fair, ih, runAll, List.foldl_cons, and_assoc]

namespace Kept

omit [DecidableEq K] in
theorem nothing : (fresh : Journal K).Kept := ⟨.nothing, .nothing, nofun⟩

/-- What is outstanding can be released. -/
theorem deregister (kept : journal.Kept) (held : (path, request) ∈ journal.outstanding)
    (net : Network K) :
    ∃ ledger : TokenBucket K,
      CostModel.deregister? journal.ledger net path request = some ledger ∧
        ledger.Balanced (journal.outstanding.erase (path, request)) := by
  have measured := kept.measured
  exact (kept.balanced.perm (List.perm_cons_erase held)).deregister (@measured _ held) net

/-- One call keeps the account. -/
theorem run (kept : journal.Kept) (permits : journal.Permits call)
    (measured : call.item.2.Measured) : (journal.run net call).Kept := by
  have measured_before := kept.measured
  cases call with
  | register path request =>
    cases registered : CostModel.register? journal.ledger net path request with
    | none =>
      rw [run_refused registered]
      exact kept
    | some ledger =>
      rw [run_register registered]
      exact ⟨kept.balanced.register registered, kept.tidy.register registered,
        List.forall_mem_cons.mpr ⟨measured, measured_before⟩⟩
  | deregister path request =>
    obtain ⟨ledger, released, balanced⟩ := kept.deregister permits net
    rw [run_deregister released]
    exact ⟨balanced, kept.tidy.deregister released,
      fun item mem => @measured_before item (List.mem_of_mem_erase mem)⟩

theorem runAll (kept : journal.Kept) (fair : Fair net journal calls)
    (measured : ∀ call ∈ calls, call.item.2.Measured) : (journal.runAll net calls).Kept := by
  induction calls generalizing journal with
  | nil => exact kept
  | cons call rest ih =>
    obtain ⟨first, others⟩ := List.forall_mem_cons.mp measured
    exact ih (kept.run fair.1 first) fair.2 others

omit [DecidableEq K] in
/-- What is outstanding decides the whole ledger. -/
theorem ledger_eq [Exact K] (kept : journal.Kept) (kept' : journal'.Kept)
    (same : journal.outstanding.Perm journal'.outstanding) : journal.ledger = journal'.ledger := by
  have measured := kept'.measured
  exact kept.tidy.eq_of_reservation kept'.tidy
    ((kept.balanced.perm same).unique kept'.balanced @measured)

/-- Everything that is outstanding is released, one after the other, and nothing is left. -/
theorem releaseAll [Exact K] (kept : journal.Kept) (net : Network K)
    {order : List (Path × Request K)} (same : order.Perm journal.outstanding) :
    let releases := order.map fun item => LedgerCall.deregister item.1 item.2
    Fair net journal releases ∧ journal.runAll net releases = fresh := by
  induction order generalizing journal with
  | nil =>
    have nothing_left : journal.outstanding = [] := List.nil_perm.mp same
    have emptied : journal.ledger = .empty := kept.ledger_eq .nothing (by rw [nothing_left]; rfl)
    refine ⟨trivial, ?_⟩
    cases journal
    cases nothing_left
    cases emptied
    rfl
  | cons item rest ih =>
    have held : item ∈ journal.outstanding := same.mem_iff.mp List.mem_cons_self
    have measured := kept.measured
    have kept_next : (journal.run net (.deregister item.1 item.2)).Kept :=
      kept.run held (@measured item held)
    obtain ⟨ledger, released, _⟩ := kept.deregister held net
    rw [run_deregister released] at kept_next
    obtain ⟨fair, nothing_left⟩ := ih kept_next (List.cons_perm_iff_perm_erase.mp same).2
    simp only [List.map_cons, Fair, Journal.runAll, List.foldl_cons, run_deregister released]
    exact ⟨⟨held, fair⟩, nothing_left⟩

end Kept

/-- Runs on an empty ledger, whose paths may cross a queue any number of times. At every moment
each queue reserves what the outstanding registrations owe it, and a release that comes next is
not refused. Another run with the same registrations outstanding has the same ledger, whatever its
calls. Releasing what is outstanding, in any order, leaves no entry. -/
theorem ledger_of_outstanding [Exact K] (net : Network K) (calls : List (LedgerCall K))
    (amounts : ∀ call ∈ calls,
      Exact.IsAmount call.item.2.rate ∧ Exact.IsAmount call.item.2.burst)
    (fair : Fair net fresh calls) :
    (∀ before after, calls = before ++ after →
      let journal := runAll net fresh before
      (∀ e, journal.ledger.reservation e = .owed journal.outstanding e) ∧
      ∀ path request rest, after = .deregister path request :: rest →
        (CostModel.deregister? journal.ledger net path request).isSome) ∧
    (∀ (net' : Network K) (calls' : List (LedgerCall K)), (∀ call ∈ calls',
        Exact.IsAmount call.item.2.rate ∧ Exact.IsAmount call.item.2.burst) →
      Fair net' fresh calls' →
      (runAll net fresh calls).outstanding.Perm (runAll net' fresh calls').outstanding →
      (runAll net fresh calls).ledger = (runAll net' fresh calls').ledger) ∧
    ∀ order : List (Path × Request K), order.Perm (runAll net fresh calls).outstanding →
      let releases := order.map fun item => LedgerCall.deregister item.1 item.2
      Fair net fresh (calls ++ releases) ∧ runAll net fresh (calls ++ releases) = fresh := by
  have kept : ∀ (net : Network K) (calls : List (LedgerCall K)),
      (∀ call ∈ calls, Exact.IsAmount call.item.2.rate ∧ Exact.IsAmount call.item.2.burst) →
      Fair net fresh calls → (runAll net fresh calls).Kept := by
    intro net calls amounts fair
    refine Kept.nothing.runAll fair fun call mem => ?_
    have rate := Exact.isAmount_iff.mp (amounts call mem).1
    have burst := Exact.isAmount_iff.mp (amounts call mem).2
    exact @Request.measured_of_quotients _ _ _ rate burst
  refine ⟨?_, fun net' calls' amounts' fair' same =>
    (kept net calls amounts fair).ledger_eq (kept net' calls' amounts' fair') same, ?_⟩
  · rintro before after rfl
    obtain ⟨first, next⟩ := fair_append.mp fair
    have kept_here :=
      kept net before (fun call mem => amounts call (List.mem_append_left _ mem)) first
    have measured := kept_here.measured
    refine ⟨kept_here.balanced.reservation_eq @measured, ?_⟩
    rintro path request rest rfl
    obtain ⟨ledger, released, _⟩ := kept_here.deregister next.1 net
    rw [released]
    rfl
  · intro order same
    obtain ⟨released, nothing_left⟩ := (kept net calls amounts fair).releaseAll net same
    refine ⟨fair_append.mpr ⟨fair, released⟩, ?_⟩
    rw [runAll, List.foldl_append]
    exact nothing_left

/-- A path that crosses a queue twice is registered, a second one is refused for it, a third goes
elsewhere, and the first is released: what is left is as if only the third had been registered. -/
theorem ledger_of_outstanding_bothWays :
    let net : Network Rat := BuildingCall.runAll (.empty 0) TokenBucket.bothWays
    let twice : Request Rat := ⟨0, 1, 400, 40, 1⟩
    let other : Request Rat := ⟨0, 1, 100, 20, 1⟩
    let calls : List (LedgerCall Rat) := [.register [3, 6, 3] twice, .register [3] twice,
      .register [4] other, .deregister [3, 6, 3] twice]
    (runAll net fresh (calls.take 3)).outstanding = [([4], other), ([3, 6, 3], twice)] ∧
      (runAll net fresh (calls.take 3)).ledger.reservation 3 = ⟨800, 80, 2⟩ ∧
      (runAll net fresh calls).ledger = (runAll net fresh [.register [4] other]).ledger ∧
      runAll net fresh (calls ++ [.deregister [4] other]) = fresh := by
  intro net twice other calls
  have amounts : ∀ call ∈ calls,
      Exact.IsAmount call.item.2.rate ∧ Exact.IsAmount call.item.2.burst := by
    intro call mem
    refine ⟨⟨_, ?_, rfl⟩, ⟨_, ?_, rfl⟩⟩ <;> revert call <;> decide
  have fair : Fair net fresh calls := by decide +kernel
  obtain ⟨each, decided, emptied⟩ := ledger_of_outstanding net calls amounts fair
  have third : (runAll net fresh (calls.take 3)).outstanding =
      [([4], other), ([3, 6, 3], twice)] := by decide +kernel
  have left : (runAll net fresh calls).outstanding = [([4], other)] := by decide +kernel
  have alone : (runAll net fresh [.register [4] other]).outstanding = [([4], other)] := by
    decide +kernel
  refine ⟨third, ?_, decided net _ ?_ (by decide +kernel) ?_,
    (emptied [([4], other)] (by rw [left])).2⟩
  · rw [(each (calls.take 3) (calls.drop 3) rfl).1 3, third]
    decide +kernel
  · exact fun call mem => amounts call (by simp_all [calls])
  · rw [left, alone]

end Journal
end FlowAdmission
