import FlowAdmission.Graph.TableSearch
import FlowAdmission.Proofs.Doubles
import FlowAdmission.Proofs.Graph.Labels

/-!
# The queue of a search

Where costs are compared as an order compares them (`PathQuery.OrdersCosts`), turns in a queue stand
in an order too. Exact sums are compared so, and so are sums of doubles that are not negative.

A queue serves the search by labels (`Sweep.Queued`) if every label has a turn at its cost, and each
other turn of its node is dearer. Then the first turn of a node that is not settled belongs to the
nearest label (`Queued.nearest`).
-/
namespace FlowAdmission
variable {W : Type} [Weight W]

namespace PathQuery
variable {q : PathQuery W} {b c d : W}

/-- What some loop-free way costs. -/
def Incurs (q : PathQuery W) (c : W) : Prop := ∃ p, q.graph.LoopFree p ∧ q.Costs p c

/-- The costs of loop-free ways are compared as an order compares, up to equal ones. -/
structure OrdersCosts (q : PathQuery W) : Prop where
  irrefl : ∀ {c}, q.Incurs c → ¬c < c
  trans : ∀ {b c d}, q.Incurs b → q.Incurs c → q.Incurs d → b < c → c < d → b < d
  between : ∀ {b c d}, q.Incurs b → q.Incurs c → q.Incurs d → b < d → b < c ∨ c < d

theorem OrdersCosts.asymm (orders : q.OrdersCosts) (first : q.Incurs b) (second : q.Incurs c)
    (less : b < c) : ¬c < b :=
  fun more => orders.irrefl first (orders.trans first second first less more)

/-- Costs that stand at places of an order, and are compared as their places are. -/
theorem ordersCosts_of_places {α : Type} [LinearOrder α] (stands : W → α → Prop)
    (placed : ∀ {c}, q.Incurs c → ∃ x, stands c x)
    (lt_iff : ∀ {c c' x x'}, stands c x → stands c' x' → (c < c' ↔ x < x')) : q.OrdersCosts where
  irrefl cost := by
    obtain ⟨x, here⟩ := placed cost
    rw [lt_iff here here]
    exact lt_irrefl x
  trans first second third := by
    obtain ⟨x, here⟩ := placed first
    obtain ⟨y, there⟩ := placed second
    obtain ⟨z, beyond⟩ := placed third
    rw [lt_iff here there, lt_iff there beyond, lt_iff here beyond]
    exact lt_trans
  between first second third := by
    obtain ⟨x, here⟩ := placed first
    obtain ⟨y, there⟩ := placed second
    obtain ⟨z, beyond⟩ := placed third
    rw [lt_iff here beyond, lt_iff here there, lt_iff there beyond]
    exact fun less => (lt_or_ge x y).imp_right fun le => lt_of_le_of_lt le less

/-- Exact sums stand at the sizes of their ways. -/
theorem ExactSums.ordersCosts {size : EdgeId → ℚ} (exact : q.ExactSums size) : q.OrdersCosts := by
  refine ordersCosts_of_places
    (fun c x => ∃ p, q.graph.LoopFree p ∧ q.Costs p c ∧ sizeSum size p = x)
    (fun ⟨p, way, costs⟩ => ⟨_, p, way, costs, rfl⟩) ?_
  rintro c c' x x' ⟨p, way, costs, rfl⟩ ⟨p', way', costs', rfl⟩
  exact exact.lt_iff way way' costs costs'

/-- Sums of doubles that are not negative, rounded or not, stand among these doubles. -/
theorem ordersCosts_float {q : PathQuery Float} (nonneg : ∀ e w, q.weight e = some w → 0 ≤ w) :
    q.OrdersCosts := by
  have bounded : ∀ {c}, q.Incurs c → Double.place c ≤ Double.top := by
    rintro c ⟨p, -, ws, weights, rfl⟩
    have start : Double.place 0 ≤ Double.top :=
      (Double.place_ofNat 0).trans_le (Double.placeOf_le_top 0)
    refine List.foldlRecOn (motive := fun c => Double.place c ≤ Double.top) ws _ start ?_
    intro c bounded w mem
    obtain ⟨e, weight⟩ := mem_of_mapM weights w mem
    exact Double.place_add_le_top bounded (nonneg e w weight)
  refine ordersCosts_of_places (fun c x => Double.place c = x ∧ x ≤ Double.top)
    (fun cost => ⟨_, rfl, bounded cost⟩) ?_
  rintro c c' x x' ⟨rfl, small⟩ ⟨rfl, small'⟩
  exact Double.lt_iff small small'

end PathQuery

namespace Search
variable {labels : Search W} {n : NodeId} {label : Label W}

theorem offer_of_cheaper
    (cheaper : ∀ known, labels.frontier[n]? = some known → label.cost < known.cost) :
    labels.offer n label = { labels with frontier := labels.frontier.insert n label } := by
  unfold offer
  cases found : labels.frontier[n]? with
  | none => rfl
  | some known => exact if_pos (cheaper known found)

theorem offer_of_known {known : Label W} (found : labels.frontier[n]? = some known)
    (no_cheaper : ¬label.cost < known.cost) : labels.offer n label = labels := by
  unfold offer
  rw [found]
  exact if_neg no_cheaper

theorem run_eq_none {q : PathQuery W} (no_label : ∀ n : NodeId, labels.frontier[n]? = none)
    {limit : Nat} : run q limit labels = none := by
  have empty : labels.frontier.toList = [] := by
    refine List.eq_nil_iff_forall_not_mem.mpr fun ⟨n, l⟩ mem => ?_
    rw [Std.ExtTreeMap.mem_toList_iff_getElem?_eq_some, no_label] at mem
    cases mem
  cases limit with
  | zero => rfl
  | succ limit => rw [run, empty, nearest]

/-- The nearest entry is the one of least cost, and among equals of the smallest node. -/
theorem nearest_eq_some {xs : List (NodeId × Label W)} {x : NodeId × Label W}
    (ascending : xs.Pairwise (·.1 < ·.1)) (mem : x ∈ xs)
    (least : ∀ y ∈ xs, ¬y.2.cost < x.2.cost ∧ (y.1 < x.1 → x.2.cost < y.2.cost)) :
    nearest xs = some x := by
  induction xs with
  | nil => cases mem
  | cons first rest ih =>
    obtain ⟨smaller, ascending⟩ := List.pairwise_cons.mp ascending
    obtain ⟨least_first, others⟩ := List.forall_mem_cons.mp least
    unfold nearest
    rcases List.mem_cons.mp mem with rfl | later
    · split
      · rfl
      · rename_i best found
        exact if_neg (others best (nearest_mem found)).1
    · rw [ih ascending later others]
      exact if_pos (least_first.2 (smaller x later))

end Search

namespace Sweep
variable {q : PathQuery W} {labels : Search W} {t u v turn : Turn W} {rest queue : List (Turn W)}
  {n : NodeId} {label : Label W}

/-! ### Turns in order -/

/-- Both turns cost what ways cost, and the second does not come before the first. -/
def InOrder (q : PathQuery W) (t u : Turn W) : Prop :=
  q.Incurs t.cost ∧ q.Incurs u.cost ∧ ¬precedes u t

theorem precedes_iff : precedes t u ↔ t.cost < u.cost ∨ (¬u.cost < t.cost ∧ t.node < u.node) := by
  simp [precedes]

theorem InOrder.trans (orders : q.OrdersCosts) (first : InOrder q t u) (second : InOrder q u v) :
    InOrder q t v := by
  obtain ⟨cost, cost', later⟩ := first
  obtain ⟨-, cost'', later'⟩ := second
  refine ⟨cost, cost'', ?_⟩
  rw [precedes_iff] at later later' ⊢
  have before := orders.between cost'' cost' cost
  have between := orders.between cost cost'' cost'
  have behind := orders.between cost' cost cost''
  grind

theorem inOrder_of_precedes (orders : q.OrdersCosts) (cost : q.Incurs t.cost)
    (cost' : q.Incurs u.cost) (earlier : precedes t u) : InOrder q t u := by
  refine ⟨cost, cost', fun later => ?_⟩
  rw [precedes_iff] at earlier later
  have asymm := orders.asymm cost cost'
  have asymm' := orders.asymm cost' cost
  grind

/-- A new turn goes where it belongs. -/
theorem insertStable_inOrder (orders : q.OrdersCosts) (cost : q.Incurs t.cost)
    (costs : ∀ u ∈ queue, q.Incurs u.cost) (sorted : queue.Pairwise (InOrder q)) :
    (insertStable precedes t queue).Pairwise (InOrder q) := by
  refine insertStable_pairwise (fun first second => first.trans orders second) ?_ ?_ sorted
  · exact fun u mem => inOrder_of_precedes orders cost (costs u mem)
  · exact fun u mem later => ⟨costs u mem, cost, later⟩

/-! ### Turns of labels -/

/-- The queue of a search that has come as far as the one by labels. -/
structure Queued (q : PathQuery W) (labels : Search W) (queue : List (Turn W)) : Prop where
  /-- An unsettled node that was reached waits at the cost of its label. -/
  waits : ∀ {n : NodeId} {l : Label W}, labels.frontier[n]? = some l → ⟨l.cost, n⟩ ∈ queue
  /-- Its other turns are dearer. -/
  turns : ∀ t ∈ queue, t.node ∈ labels.settled ∨
    ∃ l : Label W, labels.frontier[t.node]? = some l ∧ (t.cost = l.cost ∨ l.cost < t.cost)
  costs : ∀ t ∈ queue, q.Incurs t.cost
  sorted : queue.Pairwise (InOrder q)

/-- A cheaper label brings a turn, and older turns of the node stay behind it. -/
theorem Queued.offer (queued : Queued q labels queue) (orders : q.OrdersCosts)
    (incurs : q.Incurs label.cost)
    (cheaper : ∀ known, labels.frontier[n]? = some known → label.cost < known.cost) :
    Queued q { labels with frontier := labels.frontier.insert n label }
      (insertStable precedes ⟨label.cost, n⟩ queue) := by
  have mem_queue : ∀ {t}, t ∈ insertStable precedes ⟨label.cost, n⟩ queue ↔
      t = ⟨label.cost, n⟩ ∨ t ∈ queue := by
    intro t
    rw [(insertStable_perm _ _ _).mem_iff, List.mem_cons]
  refine ⟨?_, ?_, ?_, insertStable_inOrder orders incurs queued.costs queued.sorted⟩
  · intro x l found
    rw [Std.ExtTreeMap.getElem?_insert] at found
    split at found
    · rename_i same
      cases found
      exact mem_queue.mpr (.inl (by rw [Nat.compare_eq_eq.mp same]))
    · exact mem_queue.mpr (.inr (queued.waits found))
  · intro t mem
    rcases mem_queue.mp mem with rfl | old
    · exact .inr ⟨label, by simp, .inl rfl⟩
    · refine (queued.turns t old).imp_right fun ⟨l, found, dearer⟩ => ?_
      by_cases same : n = t.node
      · subst same
        have less := cheaper l found
        refine ⟨label, by simp, .inr ?_⟩
        rcases dearer with equal | dearer
        · exact equal ▸ less
        · have known := queued.costs _ (queued.waits found)
          exact orders.trans incurs known (queued.costs t old) less dearer
      · exact ⟨l, by simpa [Std.ExtTreeMap.getElem?_insert, same] using found, dearer⟩
  · intro t mem
    rcases mem_queue.mp mem with rfl | old
    · exact incurs
    · exact queued.costs t old

/-- Without its first turn a queue serves a search that has no label left at that node. -/
theorem Queued.behind {labels' : Search W} (queued : Queued q labels (turn :: rest))
    (left : ∀ {n : NodeId} {l : Label W}, labels'.frontier[n]? = some l →
      n ≠ turn.node ∧ labels.frontier[n]? = some l)
    (passed : ∀ n, n ∈ labels.settled ∨ n = turn.node → n ∈ labels'.settled)
    (kept : ∀ {n : NodeId} {l : Label W}, n ≠ turn.node → labels.frontier[n]? = some l →
      labels'.frontier[n]? = some l) : Queued q labels' rest := by
  refine ⟨fun {n l} found => ?_, fun t mem => ?_, (List.forall_mem_cons.mp queued.costs).2,
    (List.pairwise_cons.mp queued.sorted).2⟩
  · obtain ⟨other, found⟩ := left found
    refine (List.mem_cons.mp (queued.waits found)).resolve_left fun same => other ?_
    rw [← same]
  · by_cases same : t.node = turn.node
    · exact .inl (passed _ (.inr same))
    · rcases queued.turns t (List.mem_cons_of_mem _ mem) with done | ⟨l, found, dearer⟩
      · exact .inl (passed _ (.inl done))
      · exact .inr ⟨l, kept same found, dearer⟩

/-- The first turn of an unsettled node is that of the nearest label. -/
theorem Queued.nearest (queued : Queued q labels (turn :: rest)) (orders : q.OrdersCosts)
    (fresh : turn.node ∉ labels.settled) :
    ∃ l : Label W, turn.cost = l.cost ∧
      Search.nearest labels.frontier.toList = some (turn.node, l) := by
  have cost := queued.costs turn List.mem_cons_self
  -- No turn in the queue comes before the first one.
  have foremost : ∀ t ∈ turn :: rest, ¬precedes t turn := by
    refine List.forall_mem_cons.mpr ⟨?_, fun t later => ?_⟩
    · simp [precedes_iff, orders.irrefl cost]
    · exact ((List.pairwise_cons.mp queued.sorted).1 t later).2.2
  obtain ⟨l, found, place⟩ := (queued.turns turn List.mem_cons_self).resolve_left fresh
  have same : turn.cost = l.cost := by
    refine place.resolve_right fun cheaper => ?_
    exact foremost _ (queued.waits found) (precedes_iff.mpr (.inl cheaper))
  refine ⟨l, same, Search.nearest_eq_some ?_ ?_ fun ⟨n, l'⟩ mem => ?_⟩
  · exact labels.frontier.ordered_keys_toList.imp fun h => Nat.compare_eq_lt.mp h
  · exact Std.ExtTreeMap.mem_toList_iff_getElem?_eq_some.mpr found
  · have waits := foremost _ (queued.waits (Std.ExtTreeMap.mem_toList_iff_getElem?_eq_some.mp mem))
    rw [precedes_iff, same] at waits
    grind

/-- A search whose queue is empty has no label left. -/
theorem Queued.no_label (queued : Queued q labels []) (n : NodeId) :
    labels.frontier[n]? = none := by
  cases found : labels.frontier[n]? with
  | none => rfl
  | some l => cases queued.waits found

end Sweep
end FlowAdmission
