import Mathlib.Data.Prod.Lex
import FlowAdmission.Proofs.Routing.Optimal
import FlowAdmission.Proofs.Network.Layers

/-!
# Penalized queues are the last resort

A penalized queue costs as much as 30000 others. On at most 30000 nodes no loop-free path has as
many queues, so the cost of a path tells first how many penalized queues it crosses and then how
many others (`RankedRouter.ranks_burden`). The router looks at the accessible paths in this order,
and takes a penalized queue only if every path without one is too late, or not among the paths that
it may look at (`RankedRouter.route?_last_resort`).

The costs of such paths stay below 30000 times 30000, however many queues the network has, and up to
there doubles reckon exactly.
-/
namespace FlowAdmission

/-- The queue graph has no nodes but those of the network. -/
theorem Network.Layered.size_nodes_le {K : Type} {net : Network K} (layered : net.Layered) :
    net.queueGraph.nodes.size ≤ net.nodes.size := by
  have subset : net.queueGraph.nodes.toList ⊆ net.nodes.keys := by
    intro n mem
    have live := (layered.queue_nodes n).mp (Std.ExtTreeSet.mem_toList.mp mem)
    rw [Network.node?, Std.ExtTreeMap.isSome_getElem?_iff_mem] at live
    exact Std.ExtTreeMap.mem_keys.mpr live
  have fewer := (List.subperm_of_subset (nodup_toList _) subset).length_le
  rwa [Std.ExtTreeSet.length_toList, Std.ExtTreeMap.length_keys] at fewer

namespace RankedRouter
variable {penalized : Std.ExtTreeSet EdgeId} {p p' : Path}

/-- How many penalized edges a path has, and how many others. Of two paths the one with fewer
penalized edges has the lesser burden, and if they have as many, the one with fewer others. -/
def burden (penalized : Std.ExtTreeSet EdgeId) (p : Path) : ℕ ×ₗ ℕ :=
  toLex (p.countP fun e => penalized.contains e, p.countP fun e => !penalized.contains e)

/-- No edge of the path is penalized. -/
def Avoids (penalized : Std.ExtTreeSet EdgeId) (p : Path) : Prop := ∀ e ∈ p, e ∉ penalized

theorem burden_le : burden penalized p ≤ burden penalized p' ↔
    p.countP (fun e => penalized.contains e) < p'.countP (fun e => penalized.contains e) ∨
      p.countP (fun e => penalized.contains e) = p'.countP (fun e => penalized.contains e) ∧
        p.countP (fun e => !penalized.contains e) ≤ p'.countP (fun e => !penalized.contains e) :=
  Prod.Lex.toLex_le_toLex

theorem avoids_iff :
    Avoids penalized p ↔ p.countP (fun e => penalized.contains e) = 0 := by
  simp [Avoids, List.countP_eq_zero]

/-- With no more burden than a path without penalized edges, there is none either. -/
theorem Avoids.of_burden_le (avoids : Avoids penalized p')
    (less : burden penalized p ≤ burden penalized p') : Avoids penalized p := by
  rw [avoids_iff] at avoids ⊢
  rw [burden_le] at less
  omega

theorem sum_hopSize (penalized : Std.ExtTreeSet EdgeId) (p : Path) :
    (p.map (hopSize penalized)).sum =
      30000 * p.countP (fun e => penalized.contains e) +
        p.countP (fun e => !penalized.contains e) := by
  induction p with
  | nil => rfl
  | cons e rest ih =>
    by_cases dear : penalized.contains e
    · simp [hopSize, dear, ih]
      omega
    · simp [hopSize, dear, ih]
      omega

/-- The factor is larger than the number of hops that it has to outweigh. -/
theorem burden_le_iff (short : p.length < 30000) (short' : p'.length < 30000) :
    burden penalized p ≤ burden penalized p' ↔
      (p.map (hopSize penalized)).sum ≤ (p'.map (hopSize penalized)).sum := by
  have others := List.countP_le_length (p := fun e => !penalized.contains e) (l := p)
  have others' := List.countP_le_length (p := fun e => !penalized.contains e) (l := p')
  rw [burden_le, sum_hopSize, sum_hopSize]
  omega

section candidates
variable {K : Type} [Quantity K] {net : Network K} {ledger : TokenBucket K} {request : Request K}
  {router : RankedRouter} {items : List Path}

/-- On at most 30000 nodes the paths are ranked by burden, if whole numbers are exact up to what the
longest one costs. -/
theorem ranks_burden (few : net.queueGraph.nodes.size ≤ 30000)
    (whole : WholeUpTo K (30000 * 29999)) (request : Request K) (ledger : TokenBucket K)
    (penalized : Std.ExtTreeSet EdgeId) :
    (bucketQuery net request ledger penalized).Ranks
      (bucketQuery net request ledger penalized).Costs
      fun p p' => burden penalized p ≤ burden penalized p' := by
  have short : ∀ p, net.queueGraph.LoopFree p → p.length < 30000 := by
    intro p way
    have length_le := way.length_le
    omega
  have exact : (bucketQuery net request ledger penalized).ExactSums fun e => hopSize penalized e :=
    exactSums_query whole (fun _ _ => by decide) fun p way _ => Nat.le_of_lt_succ (short p way)
  have lt_iff {p p' : Path} {c c' : K} (way : net.queueGraph.LoopFree p)
      (way' : net.queueGraph.LoopFree p')
      (costs : (bucketQuery net request ledger penalized).Costs p c)
      (costs' : (bucketQuery net request ledger penalized).Costs p' c') :
      c < c' ↔ burden penalized p < burden penalized p' := by
    rw [exact.lt_iff way way' costs costs', PathQuery.sizeSum_natCast, PathQuery.sizeSum_natCast,
      Nat.cast_lt, ← not_le, ← not_le, burden_le_iff (short p' way') (short p way)]
  refine PathQuery.Respects.ranks ⟨fun _ => le_refl _, le_trans, ?_, ?_, ?_, ?_⟩ ?_ exact.add
  · intro p p' e less
    simp only [burden_le, List.countP_append] at less ⊢
    omega
  · intro p e _
    simp only [burden_le, List.countP_append]
    omega
  · intro p p' c c' way way' costs costs' cheaper
    exact le_of_lt ((lt_iff way way' costs costs').mp cheaper)
  · intro p p' c c' way way' costs costs' no_cheaper
    exact not_lt.mp (mt (lt_iff way way' costs costs').mpr no_cheaper)
  · intro root p p' less
    simp only [burden_le, List.countP_append] at less ⊢
    omega

/-- If no more paths avoid the penalized edges than may be looked at, all of these are. -/
theorem Candidates.mem_take
    (candidates : Candidates router net request (⟨ledger, penalized⟩ : Surcharged (TokenBucket K))
      (fun p p' => burden penalized p ≤ burden penalized p') items) {paths : List Path}
    (enough : paths.length ≤ router.candidates)
    (all : ∀ p, ledger.Accessible net request p → Avoids penalized p → p ∈ paths)
    (accessible : ledger.Accessible net request p) (avoids : Avoids penalized p) :
    p ∈ items.take router.candidates := by
  have mem := (candidates.mem_iff p).mpr ((simple_query_iff penalized).mpr accessible)
  obtain ⟨before, after, listed⟩ := List.append_of_mem mem
  have ranked := candidates.sorted
  have distinct := candidates.distinct
  have mem_iff := candidates.mem_iff
  subst listed
  have lighter := (List.pairwise_append.mp ranked).2.2
  have first : (before ++ [p]).Sublist (before ++ p :: after) := by simp
  -- Whatever comes before the path avoids the penalized edges too.
  have subset : before ++ [p] ⊆ paths := by
    intro y mem
    refine all y ((simple_query_iff penalized).mp ((mem_iff y).mp (first.subset mem))) ?_
    rcases List.mem_append.mp mem with earlier | last
    · exact avoids.of_burden_le (lighter y earlier p List.mem_cons_self)
    · rw [List.mem_singleton.mp last]
      exact avoids
  have shorter := (List.subperm_of_subset (distinct.sublist first) subset).length_le
  rw [List.length_append, List.length_singleton] at shorter
  rw [List.mem_take_iff_getElem]
  exact ⟨before.length, by simp; omega, by simp⟩

end candidates

/-- On a built network of at most 30000 nodes the router looks at the accessible paths by their
burden, as far as it may. So its answer has the least burden of all that are in time, and if it may
look at all accessible paths that avoid the penalized edges and one of these is in time, it answers
with such a path. -/
theorem route?_last_resort (id : Nat) (calls : List (BuildingCall Float))
    (few : (BuildingCall.runAll (.empty id) calls).nodes.size ≤ 30000)
    (ledger : TokenBucket Float) (request : Request Float) (penalized : Std.ExtTreeSet EdgeId)
    (router : RankedRouter) :
    let net := BuildingCall.runAll (.empty id) calls
    let view : Surcharged (TokenBucket Float) := ⟨ledger, penalized⟩
    (∃ items : List Path, items.Nodup ∧
      (∀ p, p ∈ items ↔ ledger.Accessible net request p) ∧
      (items.Pairwise fun p p' => burden penalized p ≤ burden penalized p') ∧
      (∀ n, ((query net request view).answers .fresh n).map (·.2) = items[n]?) ∧
      router.route? net request view =
        (items.take router.candidates).find? (meetsDeadline net request view)) ∧
    (∀ path, router.route? net request view = some path →
      ledger.Accessible net request path ∧ net.InTime request path ∧
      ∀ p, ledger.Accessible net request p → net.InTime request p →
        burden penalized path ≤ burden penalized p) ∧
    ∀ paths : List Path, paths.length ≤ router.candidates →
      (∀ p, ledger.Accessible net request p → Avoids penalized p → p ∈ paths) →
      (∃ p, ledger.Accessible net request p ∧ net.InTime request p ∧ Avoids penalized p) →
      ∃ path, router.route? net request view = some path ∧ Avoids penalized path := by
  intro net view
  have few : net.queueGraph.nodes.size ≤ 30000 :=
    Nat.le_trans (Network.layered_runAll id calls).size_nodes_le few
  have whole : WholeUpTo Float (30000 * 29999) := Double.wholeUpTo (by decide)
  have ranks := ranks_burden few whole request ledger penalized
  obtain ⟨items, candidates⟩ := exists_candidates router ranks
  have mem_iff (p : Path) : p ∈ items ↔ ledger.Accessible net request p :=
    (candidates.mem_iff p).trans (simple_query_iff penalized)
  have lightest : ∀ path, router.route? net request view = some path →
      ledger.Accessible net request path ∧ net.InTime request path ∧
      ∀ p, ledger.Accessible net request p → net.InTime request p →
        burden penalized path ≤ burden penalized p := by
    intro path routed
    obtain ⟨accessible, in_time⟩ := accessible_of_route? routed
    exact ⟨accessible, in_time, fun p => route?_best ranks routed⟩
  refine ⟨⟨items, candidates.distinct, mem_iff, candidates.sorted, candidates.yielded,
    candidates.answer⟩, lightest, ?_⟩
  intro paths enough all ⟨p, accessible, in_time, avoids⟩
  have found : (router.route? net request view).isSome := by
    rw [candidates.answer, List.find?_isSome]
    exact ⟨p, candidates.mem_take enough all accessible avoids, meetsDeadline_iff.mpr in_time⟩
  obtain ⟨path, routed⟩ := Option.isSome_iff_exists.mp found
  exact ⟨path, routed, avoids.of_burden_le ((lightest path routed).2.2 p accessible in_time)⟩

/-- The way around is looked at before the direct one, whose queue is penalized. A router that may
look at a single path finds it. -/
theorem route?_last_resort_diamond :
    let router : RankedRouter := ⟨1⟩
    let request : Request Float := ⟨0, 2, 10, 10, 2⟩
    let view : Surcharged (TokenBucket Float) := ⟨.empty, .ofList [4]⟩
    burden view.penalized [6, 8] < burden view.penalized [4] ∧
      (∀ p, (TokenBucket.empty : TokenBucket Float).Accessible diamond request p ↔
        p = [6, 8] ∨ p = [4]) ∧
      ∃ path, router.route? diamond request view = some path ∧ Avoids view.penalized path := by
  intro router request view
  obtain ⟨⟨items, _, mem_iff, _, answers, _⟩, _, avoiding⟩ := route?_last_resort 0
    [.node "a", .node "s", .node "b", .link 0 2 100 0 [100], .link 0 1 1000000 0 [100],
      .link 1 2 1000000 0 [100]]
    (by decide +kernel) .empty request view.penalized router
  have listed : items = [[6, 8], [4]] := by
    have first : items[0]? = some [6, 8] := (answers 0).symm.trans (by decide +kernel)
    have second : items[1]? = some [4] := (answers 1).symm.trans (by decide +kernel)
    have ended : items[2]? = none := (answers 2).symm.trans (by decide +kernel)
    rcases items with _ | ⟨p, _ | ⟨p', _ | _⟩⟩ <;> simp_all
  have accessible_iff (p : Path) : (TokenBucket.empty : TokenBucket Float).Accessible diamond
      request p ↔ p = [6, 8] ∨ p = [4] := by
    rw [← List.mem_pair, ← listed]
    exact (mem_iff p).symm
  refine ⟨by decide +kernel, accessible_iff, avoiding [[6, 8]] (Nat.le_refl 1) ?_ ?_⟩
  · intro p accessible avoids
    rcases (accessible_iff p).mp accessible with rfl | rfl
    · exact List.mem_singleton_self _
    · exact absurd (avoids 4 (List.mem_singleton_self 4)) (by decide +kernel)
  · have in_time : meetsDeadline diamond request view [6, 8] = true := by decide +kernel
    exact ⟨[6, 8], (accessible_iff _).mpr (.inl rfl), meetsDeadline_iff.mp in_time,
      avoids_iff.mpr (by decide +kernel)⟩

end RankedRouter
end FlowAdmission
