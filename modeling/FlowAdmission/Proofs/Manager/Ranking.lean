import FlowAdmission.Proofs.Doubles
import FlowAdmission.Proofs.Manager.Demands
import FlowAdmission.Proofs.Manager.Selection

/-!
# In which order candidates are tried

Candidates are ordered by a key, the largest first, and flows with one key as they were created.
The keys are rates, bursts, latencies or counts of hops (`Rerouting.Order.key`). All of them are
compared as doubles, so whole numbers count as one key when they become one double. Up to `2 ^ 53`
no two of them do, and the order is the one of the numbers themselves
(`Rerouting.rank_of_reachable`).
-/
namespace FlowAdmission.Rerouting
variable {K : Type}

/-- What flows are compared by. -/
inductive Key (K : Type) where
  /-- By nothing: all flows are alike. -/
  | alike
  | whole (n : ℕ)
  | time (t : K)

namespace Key

/-- The order of the keys themselves. -/
def Less [LT K] : Key K → Key K → Prop
  | whole n, whole n' => n < n'
  | time t, time t' => t < t'
  | _, _ => False

/-- The number that stands for a key when flows are ordered. -/
def value [Quantity K] : Key K → K
  | alike => 0
  | whole n => (n : K)
  | time t => t

/-- Whole numbers up to the bound. Doubles tell them apart. -/
def Moderate : Key K → Prop
  | whole n => n ≤ 2 ^ 53
  | _ => True

end Key

/-- The link of a hop is on one of the shortest paths between two nodes. -/
def onShortest (net : Network K) (index : PathIndex) (s t : NodeId) (hop : EdgeId) : Bool :=
  match net.linkOf? hop, index.tier s t 0 with
  | some link, .ok tier => tier.any (·.contains link)
  | _, _ => false

/-- The key that an order gives to a flow of the store. -/
def Order.key (net : Network K) (store : Store K) (index : PathIndex) (request : Request K)
    (order : Order) (flow : FlowId) : Key K :=
  match order, store.flow? flow with
  | .commonEdges, _ =>
    .whole (((flowPath? store flow).getD []).countP
      (onShortest net index request.source request.destination))
  | .rate, some f => .whole f.contract.rate
  | .burst, some f => .whole f.contract.burst
  | .delay, some f => .time f.latency
  | _, _ => .alike

/-- The flow with the larger key is ahead, and the older one where one number stands for both. -/
def Ahead [Quantity K] (key : FlowId → Key K) (a b : FlowId) : Prop :=
  (key a).value ≠ (key b).value ∧ (key b).Less (key a) ∨
    (key a).value = (key b).value ∧ a.index < b.index

section sorting

/-- The order that decreasing places and increasing numbers give. -/
def Descends (place : FlowId → ℕ) (a b : FlowId) : Prop :=
  place b < place a ∨ place a = place b ∧ a.index < b.index

theorem Descends.trans {place : FlowId → ℕ} {a b c : FlowId} (first : Descends place a b)
    (second : Descends place b c) : Descends place a c := by
  unfold Descends at *
  omega

theorem ascending_toList (candidates : FlowSet) :
    candidates.toList.Pairwise (·.index < ·.index) :=
  candidates.ordered_toList.imp fun before => Nat.compare_eq_lt.mp before

variable [Quantity K]

/-- Inserting newer flows one after the other keeps the order, as long as their keys compare like
their places. -/
theorem descends_insertAll {key : FlowId → K} {place : FlowId → ℕ} {flows sorted : List FlowId}
    (agrees : ∀ a ∈ flows ++ sorted, ∀ b ∈ flows ++ sorted,
      (key b < key a ↔ place b < place a))
    (ascending : flows.Pairwise (·.index < ·.index))
    (newer : ∀ a ∈ flows, ∀ b ∈ sorted, b.index < a.index)
    (descends : sorted.Pairwise (Descends place)) :
    (flows.foldl (fun sorted a => insertStable (fun a b => key b < key a) a sorted) sorted).Pairwise
      (Descends place) := by
  induction flows generalizing sorted with
  | nil => exact descends
  | cons a rest ih =>
    obtain ⟨after, ascending⟩ := List.pairwise_cons.mp ascending
    obtain ⟨newest, newer⟩ := List.forall_mem_cons.mp newer
    -- The inserted flow is the newest, so it stands behind all those with an equal place.
    have inserted := insertStable_perm (fun a b => decide (key b < key a)) a sorted
    have all := (inserted.append_left rest).trans List.perm_middle
    refine ih (fun b mem c mem' => agrees b (all.mem_iff.mp mem) c (all.mem_iff.mp mem')) ascending
      (fun b mem c mem' => ?_) ?_
    · rcases List.mem_cons.mp (inserted.mem_iff.mp mem') with rfl | old
      · exact after b mem
      · exact newer b mem c old
    · have compared {b : FlowId} (mem : b ∈ sorted) : key b < key a ↔ place b < place a :=
        agrees a List.mem_cons_self b (List.mem_append_right _ mem)
      refine insertStable_pairwise (fun first second => first.trans second)
        (fun b mem precedes => .inl ((compared mem).mp (of_decide_eq_true precedes)))
        (fun b mem behind => ?_) descends
      have not_larger : ¬place b < place a := fun larger =>
        behind (decide_eq_true ((compared mem).mpr larger))
      have older := newest b mem
      unfold Descends
      omega

theorem descends_byKey {key : FlowId → K} {place : FlowId → ℕ} {candidates : FlowSet}
    (agrees : ∀ a ∈ candidates, ∀ b ∈ candidates, (key b < key a ↔ place b < place a)) :
    (byKey key candidates.toList).Pairwise (Descends place) := by
  refine descends_insertAll (fun a mem b mem' => ?_) (ascending_toList candidates) ?_ .nil
  · rw [List.append_nil, Std.ExtTreeSet.mem_toList] at mem mem'
    exact agrees a mem b mem'
  · exact fun _ _ _ => nofun

end sorting

section keys
variable {net : Network K} {s : Store K} {index : PathIndex} {request : Request K}

/-- The links of the looked-up paths are the links of the first tier. -/
theorem sharedHops_eq {paths : List Path}
    (answered : index.firstPaths request.source request.destination 1 = .ok paths)
    (flow : FlowId) :
    sharedHops net s paths.flatten flow =
      ((flowPath? s flow).getD []).countP
        (onShortest net index request.source request.destination) := by
  cases known : index.tiers? request.source request.destination with
  | none => simp [PathIndex.firstPaths, known] at answered
  | some tiers =>
    simp only [PathIndex.firstPaths, known, Except.ok.injEq] at answered
    subst answered
    rw [sharedHops, List.countP_filterMap]
    refine List.countP_congr fun hop _ => ?_
    unfold onShortest
    rw [PathIndex.tier_of_tiers? known]
    cases net.linkOf? hop with
    | none => rfl
    | some link =>
      cases tiers with
      | nil => simp
      | cons first later => simp

variable [Quantity K]

/-- Every order but none at all sorts by the numbers that stand for its keys. -/
theorem rank_cases {candidates : FlowSet} (live : ∀ flow ∈ candidates, (s.flow? flow).isSome)
    {order : Order} {flows : List FlowId}
    (answered : rank net s index request candidates order = .ok flows) :
    (order = .unsorted ∧ flows = candidates.toList) ∨
      ∃ key, flows = byKey key candidates.toList ∧
        ∀ flow ∈ candidates, key flow = (order.key net s index request flow).value := by
  unfold rank at answered
  cases order with
  | unsorted =>
    cases answered
    exact .inl ⟨rfl, rfl⟩
  | commonEdges =>
    cases known : index.firstPaths request.source request.destination 1 with
    | error e =>
      rw [known] at answered
      cases answered
    | ok paths =>
      rw [known] at answered
      cases answered
      refine .inr ⟨_, rfl, fun flow _ => ?_⟩
      dsimp only [Order.key, Key.value]
      rw [sharedHops_eq known]
  | rate | burst | delay =>
    cases answered
    refine .inr ⟨_, rfl, fun flow mem => ?_⟩
    obtain ⟨f, found⟩ := Option.isSome_iff_exists.mp (live flow mem)
    simp only [flowKey, Order.key, found, Key.value]

end keys

namespace Key

/-- Keys that one order gives, and that are not negative. -/
inductive Comparable : Key Float → Key Float → Prop
  | alike : Comparable alike alike
  | whole (n n' : ℕ) : Comparable (whole n) (whole n')
  | time {t t' : Float} (positive : 0 < t) (positive' : 0 < t') : Comparable (time t) (time t')

namespace Comparable
variable {k k' : Key Float}

theorem place_le_top (comparable : Comparable k k') : Double.place k.value ≤ Double.top := by
  cases comparable with
  | alike =>
    show Double.place (Float.ofNat 0) ≤ _
    rw [Double.place_ofNat]
    exact Double.placeOf_le_top 0
  | whole n n' =>
    show Double.place (Float.ofNat n) ≤ _
    rw [Double.place_ofNat]
    exact Double.placeOf_le_top n
  | time positive positive' => exact Double.place_le_top positive

theorem symm (comparable : Comparable k k') : Comparable k' k := by
  cases comparable with
  | alike => exact .alike
  | whole n n' => exact .whole n' n
  | time positive positive' => exact .time positive' positive

theorem lt_iff (comparable : Comparable k k') :
    k.value < k'.value ↔ Double.place k.value < Double.place k'.value :=
  Double.lt_iff comparable.place_le_top comparable.symm.place_le_top

/-- A key that gets a smaller double is smaller. -/
theorem less_of_place_lt (comparable : Comparable k k')
    (lower : Double.place k.value < Double.place k'.value) : k.Less k' := by
  cases comparable with
  | alike => exact absurd lower (Nat.lt_irrefl _)
  | whole n n' =>
    have lower : Double.place (Float.ofNat n) < Double.place (Float.ofNat n') := lower
    rw [Double.place_ofNat, Double.place_ofNat] at lower
    show n < n'
    by_contra not_less
    exact absurd lower (Nat.not_lt.mpr (Double.placeOf_mono (Nat.not_lt.mp not_less)))
  | time positive positive' =>
    exact (Double.lt_iff (Double.place_le_top positive) (Double.place_le_top positive')).mpr lower

/-- Moderate keys of one double are one key. -/
theorem eq_of_value_eq (comparable : Comparable k k') (moderate : k.Moderate)
    (moderate' : k'.Moderate) (same : k.value = k'.value) : k = k' := by
  cases comparable with
  | alike => rfl
  | whole n n' =>
    have same : Double.place (Float.ofNat n) = Double.place (Float.ofNat n') :=
      congrArg Double.place same
    rw [Double.place_ofNat, Double.place_ofNat] at same
    rcases Nat.lt_trichotomy n n' with less | rfl | greater
    · exact absurd same (Nat.ne_of_lt (Double.placeOf_strict less moderate'))
    · rfl
    · exact absurd same (Nat.ne_of_gt (Double.placeOf_strict greater moderate))
  | @time t t' positive positive' =>
    have same : t = t' := same
    rw [same]

end Comparable
end Key

/-- Live flows of positive demands have keys that compare. -/
theorem Order.comparable {net : Network Float} {s : Store Float} (positive : s.Positive)
    {index : PathIndex} {request : Request Float} (order : Order) {a b : FlowId}
    (first : (s.flow? a).isSome) (second : (s.flow? b).isSome) :
    Key.Comparable (order.key net s index request a) (order.key net s index request b) := by
  obtain ⟨f, found⟩ := Option.isSome_iff_exists.mp first
  obtain ⟨g, found'⟩ := Option.isSome_iff_exists.mp second
  cases order with
  | unsorted => exact .alike
  | commonEdges => exact .whole _ _
  | rate | burst =>
    simp only [key, found, found']
    exact .whole _ _
  | delay =>
    simp only [key, found, found']
    exact .time (positive.flow found).latency (positive.flow found').latency

/-- Candidates stand by the places of their keys. -/
theorem rank_descends {net : Network Float} {s : Store Float} (positive : s.Positive)
    {index : PathIndex} {request : Request Float} {candidates : FlowSet}
    (live : ∀ flow ∈ candidates, (s.flow? flow).isSome) {order : Order} {flows : List FlowId}
    (answered : rank net s index request candidates order = .ok flows) :
    flows.Pairwise
      (Descends fun flow => Double.place (order.key net s index request flow).value) := by
  rcases rank_cases live answered with ⟨rfl, rfl⟩ | ⟨key, rfl, keys⟩
  · exact (ascending_toList candidates).imp fun older => .inr ⟨rfl, older⟩
  · refine descends_byKey fun a mem b mem' => ?_
    rw [keys a mem, keys b mem']
    exact (order.comparable positive (live b mem') (live a mem)).lt_iff

/-- Every candidate is tried once, those with larger keys first and of equal keys the older flow.
Keys that become one double count as equal, which only happens beyond `2 ^ 53`. -/
theorem rank_of_reachable {R C : Type} [CostModel C Float] [Router R C Float]
    {m : Manager R C Float} (reachable : m.Reachable) (index : PathIndex)
    (request : Request Float) {candidates : FlowSet}
    (live : ∀ flow ∈ candidates, (m.store.flow? flow).isSome) (order : Order)
    {flows : List FlowId}
    (answered : rank m.network m.store index request candidates order = .ok flows) :
    let key := order.key m.network m.store index request
    flows.Nodup ∧ (∀ flow, flow ∈ flows ↔ flow ∈ candidates) ∧
      flows.Pairwise fun a b => Ahead key a b ∧
        ((key a).Moderate → (key b).Moderate →
          (key b).Less (key a) ∨ key a = key b ∧ a.index < b.index) := by
  intro key
  have perm := rank_perm answered
  have mem (flow : FlowId) : flow ∈ flows ↔ flow ∈ candidates :=
    perm.mem_iff.trans Std.ExtTreeSet.mem_toList
  have distinct : candidates.toList.Nodup := (ascending_toList candidates).imp <| by
    rintro a b older rfl
    exact Nat.lt_irrefl _ older
  refine ⟨perm.nodup_iff.mpr distinct, mem, ?_⟩
  refine (rank_descends reachable.positive live answered).imp_of_mem fun {a b} first second => ?_
  have comparable : Key.Comparable (key a) (key b) :=
    order.comparable reachable.positive (live a ((mem a).mp first)) (live b ((mem b).mp second))
  rintro (larger | ⟨same, older⟩)
  · have less : (key b).Less (key a) := comparable.symm.less_of_place_lt larger
    refine ⟨.inl ⟨fun same => ?_, less⟩, fun _ _ => .inl less⟩
    exact absurd (congrArg Double.place same) (Nat.ne_of_gt larger)
  · have same : (key a).value = (key b).value := Double.place_injective same
    exact ⟨.inr ⟨same, older⟩, fun moderate moderate' =>
      .inr ⟨comparable.eq_of_value_eq moderate moderate' same, older⟩⟩

/-- A demand of so many bits per second from the first machine. -/
def doubleDemand (name : String) (destination : VmId) (port : UInt16) (rate : ℕ) :
    FlowDemand Float where
  name
  source := ⟨0⟩
  destination
  matching := ⟨.v4 10 0 0 1, .v4 10 0 0 2, port, 80, 6⟩
  contract := ⟨rate, 1000⟩
  latency := 10

/-- Two flows that stay on their host, the second one faster than the first by a bit per second, and
a slow one over the link. -/
def doubleManager : Manager Scripted (TokenBucket Float) Float :=
  Operation.runAll
    (.start
      (BuildingCall.runAll (.empty 0) [.host "left", .host "right", .simpleLink 0 1 100000])
      ⟨[some [3]]⟩ .empty none)
    [.createTenant "tenant", .createVm ⟨0⟩ "a" (.on ⟨0, 0⟩), .createVm ⟨0⟩ "b" (.on ⟨0, 0⟩),
      .createVm ⟨0⟩ "c" (.on ⟨0, 1⟩), .createFlow (doubleDemand "first" ⟨1⟩ 1 (2 ^ 53)),
      .createFlow (doubleDemand "second" ⟨1⟩ 2 (2 ^ 53 + 1)),
      .createFlow (doubleDemand "third" ⟨2⟩ 3 1000)]

/-- The third flow alone shares a hop with the shortest paths. -/
theorem rank_of_doubleManager :
    let index := PathIndex.build doubleManager.network.linkGraph 1
    let request : Request Float := ⟨0, 1, 1, 1, 1⟩
    let candidates : FlowSet := .ofList ([⟨0⟩, ⟨1⟩, ⟨2⟩] : List FlowId)
    let ranked := rank doubleManager.network doubleManager.store index request candidates
    let key (order : Order) :=
      order.key doubleManager.network doubleManager.store index request
    ranked .commonEdges = .ok [⟨2⟩, ⟨0⟩, ⟨1⟩] ∧
      [⟨2⟩, ⟨0⟩, ⟨1⟩].Pairwise (Ahead (key .commonEdges)) ∧
      ranked .rate = .ok [⟨0⟩, ⟨1⟩, ⟨2⟩] ∧ [⟨0⟩, ⟨1⟩, ⟨2⟩].Pairwise (Ahead (key .rate)) := by
  intro index request candidates ranked key
  have reachable : doubleManager.Reachable := (Manager.Reachable.start 0 _ _ _ _).runAll _
  have live : ∀ flow ∈ candidates, (doubleManager.store.flow? flow).isSome := by
    have all : ∀ flow ∈ candidates.toList, (doubleManager.store.flow? flow).isSome := by
      decide +kernel
    exact fun flow mem => all flow (Std.ExtTreeSet.mem_toList.mpr mem)
  have hops : ranked .commonEdges = .ok [⟨2⟩, ⟨0⟩, ⟨1⟩] := by decide +kernel
  have rates : ranked .rate = .ok [⟨0⟩, ⟨1⟩, ⟨2⟩] := by decide +kernel
  obtain ⟨-, -, by_hops⟩ := rank_of_reachable reachable index request live .commonEdges hops
  obtain ⟨-, -, by_rates⟩ := rank_of_reachable reachable index request live .rate rates
  exact ⟨hops, by_hops.imp And.left, rates, by_rates.imp And.left⟩

/-- The second flow asks for more than the first one. Both rates become one double, so the first flow
is tried first. -/
theorem slower_flow_ahead :
    let store := doubleManager.store
    let request : Request Float := ⟨0, 1, 1, 1, 1⟩
    let candidates : FlowSet := .ofList ([⟨0⟩, ⟨1⟩] : List FlowId)
    doubleManager.Reachable ∧
      rank doubleManager.network store .empty request candidates .rate = .ok [⟨0⟩, ⟨1⟩] ∧
      (store.flow? ⟨0⟩).map (·.contract.rate) = some (2 ^ 53) ∧
      (store.flow? ⟨1⟩).map (·.contract.rate) = some (2 ^ 53 + 1) :=
  ⟨(Manager.Reachable.start 0 _ _ _ _).runAll _, by decide +kernel⟩

end FlowAdmission.Rerouting
