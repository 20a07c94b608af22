import FlowAdmission.Proofs.Exact
import FlowAdmission.Graph.ShortestPath
import Mathlib.Data.List.Induction
import Mathlib.Data.List.Perm.Subperm

/-!
# Walks and their weights

A path leads from one node to another when each edge goes on where the one before it ended
(`Graph.Leads`). Paths are joined and cut by `Graph.leads_append`.

The weights of a query are studied where sums are exact: every edge has a size, and sums of weights
compare as the sums of the sizes do. The search only adds up ways that come to no node twice, so it
is enough that their sums are exact (`PathQuery.ExactSums`). No law is asked of other sums. Whole
numbers are exact as long as these sums stay within what is reckoned with exactly
(`PathQuery.exactSums_whole`).
-/
namespace FlowAdmission
namespace Graph
variable {g : Graph} {a b c : NodeId} {e : EdgeId} {p p' : Path}

/-- The path leads from `a` to `b`. -/
def Leads (g : Graph) (a : NodeId) : Path → NodeId → Prop
  | [], b => a = b
  | e :: rest, b => ∃ t, g.edge? e = some ⟨a, t⟩ ∧ g.Leads t rest b

/-- The nodes that the edges of a path end at. -/
def stops (g : Graph) (p : Path) : List NodeId := p.filterMap fun e => (g.edge? e).map (·.target)

/-- There are no more different nodes than the graph has. -/
theorem length_le_nodes {ns : List NodeId} (distinct : ns.Nodup) (known : ∀ n ∈ ns, n ∈ g.nodes) :
    ns.length ≤ g.nodes.size := by
  have subset : ns ⊆ g.nodes.toList := fun n mem => Std.ExtTreeSet.mem_toList.mpr (known n mem)
  have shorter := (List.subperm_of_subset distinct subset).length_le
  rwa [Std.ExtTreeSet.length_toList] at shorter

theorem leads_append : g.Leads a (p ++ p') c ↔ ∃ b, g.Leads a p b ∧ g.Leads b p' c := by
  induction p generalizing a with
  | nil => simp [Leads]
  | cons e rest ih =>
    simp only [List.cons_append, Leads, ih]
    constructor
    · rintro ⟨t, edge, b, first, second⟩
      exact ⟨b, ⟨t, edge, first⟩, second⟩
    · rintro ⟨b, ⟨t, edge, first⟩, second⟩
      exact ⟨t, edge, b, first, second⟩

theorem leads_singleton : g.Leads a [e] b ↔ g.edge? e = some ⟨a, b⟩ := by
  simp [Leads]

theorem Leads.unique (first : g.Leads a p b) (second : g.Leads a p c) : b = c := by
  induction p generalizing a with
  | nil => exact first.symm.trans second
  | cons e rest ih =>
    obtain ⟨t, edge, first⟩ := first
    obtain ⟨t', edge', second⟩ := second
    rw [edge] at edge'
    cases edge'
    exact ih first second

@[simp] theorem stops_nil : g.stops [] = [] := rfl

@[simp] theorem stops_append : g.stops (p ++ p') = g.stops p ++ g.stops p' :=
  List.filterMap_append

theorem stops_cons (edge : g.edge? e = some ⟨a, b⟩) : g.stops (e :: p) = b :: g.stops p := by
  simp [stops, edge]

theorem Leads.length_stops (leads : g.Leads a p b) : (g.stops p).length = p.length := by
  induction p generalizing a with
  | nil => rfl
  | cons e rest ih =>
    obtain ⟨t, edge, leads⟩ := leads
    rw [stops_cons edge, List.length_cons, List.length_cons, ih leads]

/-- A path ends at its last stop. -/
theorem Leads.getLast? (leads : g.Leads a p b) : (a :: g.stops p).getLast? = some b := by
  induction p generalizing a with
  | nil =>
    obtain rfl : a = b := leads
    rfl
  | cons e rest ih =>
    obtain ⟨t, edge, leads⟩ := leads
    rw [stops_cons edge, List.getLast?_cons_cons]
    exact ih leads

theorem Leads.end_mem (leads : g.Leads a p b) : b ∈ a :: g.stops p :=
  List.mem_of_getLast? leads.getLast?

/-- The end of a path with an edge is one of its stops. -/
theorem Leads.end_mem_stops (leads : g.Leads a p b) (nonempty : p ≠ []) : b ∈ g.stops p := by
  cases p with
  | nil => exact absurd rfl nonempty
  | cons e rest =>
    obtain ⟨t, edge, leads⟩ := leads
    rw [stops_cons edge]
    exact leads.end_mem

/-- Only edges of the graph lead anywhere. -/
theorem Leads.edge_of_mem (leads : g.Leads a p b) (mem : e ∈ p) :
    ∃ edge, g.edge? e = some edge ∧ edge.source ∈ a :: g.stops p ∧ edge.target ∈ g.stops p := by
  induction p generalizing a with
  | nil => cases mem
  | cons i rest ih =>
    obtain ⟨t, edge, leads⟩ := leads
    rw [stops_cons edge]
    rcases List.mem_cons.mp mem with rfl | later
    · exact ⟨⟨a, t⟩, edge, List.mem_cons_self, List.mem_cons_self⟩
    · obtain ⟨edge', found, source, target⟩ := ih leads later
      exact ⟨edge', found, List.mem_cons_of_mem _ source, List.mem_cons_of_mem _ target⟩

theorem Leads.stops_subset (leads : g.Leads a p b) : ∀ n ∈ g.stops p, n ∈ g.nodes := by
  intro n stop
  obtain ⟨e, mem, target⟩ := List.mem_filterMap.mp stop
  obtain ⟨edge, found, _, _⟩ := leads.edge_of_mem mem
  rw [found] at target
  cases target
  exact (g.closed e edge found).2

theorem Leads.end_mem_nodes (leads : g.Leads a p b) (start : a ∈ g.nodes) : b ∈ g.nodes := by
  rcases List.mem_cons.mp leads.end_mem with rfl | stop
  · exact start
  · exact leads.stops_subset b stop

/-- A path that comes to no node twice has no edge twice. -/
theorem Leads.nodup_of_stops (leads : g.Leads a p b) (distinct : (g.stops p).Nodup) :
    p.Nodup := by
  induction p generalizing a with
  | nil => exact List.nodup_nil
  | cons e rest ih =>
    obtain ⟨t, edge, leads⟩ := leads
    rw [stops_cons edge, List.nodup_cons] at distinct
    refine List.nodup_cons.mpr ⟨fun again => ?_, ih leads distinct.2⟩
    obtain ⟨edge', found, _, target⟩ := leads.edge_of_mem again
    rw [edge] at found
    cases found
    exact distinct.1 target

theorem Leads.pathNodes? (leads : g.Leads a p b) (nonempty : p ≠ []) :
    g.pathNodes? p = some (a :: g.stops p) := by
  have targets : ∀ {a : NodeId} {p : Path}, g.Leads a p b →
      (p.mapM fun id => (g.edge? id).map (·.target)) = some (g.stops p) := by
    intro a p leads
    induction p generalizing a with
    | nil => rfl
    | cons e rest ih =>
      obtain ⟨t, edge, leads⟩ := leads
      rw [List.mapM_cons, ih leads, stops_cons edge, edge]
      rfl
  cases p with
  | nil => exact absurd rfl nonempty
  | cons e rest =>
    have stops := targets leads
    obtain ⟨t, edge, _⟩ := leads
    simp only [Graph.pathNodes?, edge, stops, Option.bind_eq_bind, Option.bind_some]
    rfl

/-- A path with an edge that comes to no node twice. -/
structure SimplePath (g : Graph) (a : NodeId) (p : Path) (b : NodeId) : Prop where
  nonempty : p ≠ []
  leads : g.Leads a p b
  distinct : (a :: g.stops p).Nodup

theorem SimplePath.nodup (simple : g.SimplePath a p b) : p.Nodup :=
  simple.leads.nodup_of_stops (List.nodup_cons.mp simple.distinct).2

/-- A way that comes to no node twice, wherever it starts and ends. It may have no edge. -/
def LoopFree (g : Graph) (p : Path) : Prop := ∃ a b, g.Leads a p b ∧ (a :: g.stops p).Nodup

theorem SimplePath.loopFree (simple : g.SimplePath a p b) : g.LoopFree p :=
  ⟨a, b, simple.leads, simple.distinct⟩

namespace LoopFree

theorem nodup (loopFree : g.LoopFree p) : p.Nodup := by
  obtain ⟨a, b, leads, distinct⟩ := loopFree
  exact leads.nodup_of_stops (List.nodup_cons.mp distinct).2

/-- Both parts of it are such ways. -/
theorem parts (loopFree : g.LoopFree (p ++ p')) : g.LoopFree p ∧ g.LoopFree p' := by
  obtain ⟨a, c, leads, distinct⟩ := loopFree
  obtain ⟨b, first, second⟩ := leads_append.mp leads
  rw [stops_append, ← List.cons_append] at distinct
  obtain ⟨distinct_first, distinct_second, apart⟩ := List.nodup_append.mp distinct
  refine ⟨⟨a, b, first, distinct_first⟩, b, c, second, ?_⟩
  exact List.nodup_cons.mpr ⟨fun again => apart b first.end_mem b again rfl, distinct_second⟩

/-- It has fewer edges than the graph has nodes. -/
theorem length_lt (loopFree : g.LoopFree p) (nonempty : p ≠ []) : p.length < g.nodes.size := by
  obtain ⟨a, b, leads, distinct⟩ := loopFree
  cases p with
  | nil => exact absurd rfl nonempty
  | cons e rest =>
    have ⟨t, edge, _⟩ := leads
    have shorter := g.length_le_nodes distinct <| List.forall_mem_cons.mpr
      ⟨(g.closed e _ edge).1, leads.stops_subset⟩
    rw [List.length_cons, leads.length_stops] at shorter
    omega

theorem length_le (loopFree : g.LoopFree p) : p.length ≤ g.nodes.size - 1 := by
  by_cases nothing : p = []
  · simp [nothing]
  · exact Nat.le_sub_one_of_lt (loopFree.length_lt nothing)

end LoopFree

end Graph

section lists
variable {α β : Type} {f g : α → Option β} {xs : List α}

/-- A list is read item by item. -/
theorem mapM_eq_some_iff {ys : List β} :
    xs.mapM f = some ys ↔ List.Forall₂ (fun x y => f x = some y) xs ys := by
  induction xs generalizing ys with
  | nil => simp [eq_comm]
  | cons x rest ih =>
    simp only [List.mapM_cons, Option.bind_eq_bind, Option.bind_eq_some_iff, ih,
      List.forall₂_cons_left_iff]
    constructor
    · rintro ⟨y, first, later, read, same⟩
      exact ⟨y, later, first, read, (Option.some.inj same).symm⟩
    · rintro ⟨y, later, first, read, rfl⟩
      exact ⟨y, first, later, read, rfl⟩

/-- A list is read whole only where each item can be read. -/
theorem isSome_of_mapM {ys : List β} (read : xs.mapM f = some ys) : ∀ x ∈ xs, (f x).isSome := by
  replace read := mapM_eq_some_iff.mp read
  induction read with
  | nil => nofun
  | cons first _ ih => exact List.forall_mem_cons.mpr ⟨by rw [first]; rfl, ih⟩

theorem mem_of_mapM {ys : List β} (read : xs.mapM f = some ys) : ∀ y ∈ ys, ∃ x, f x = some y := by
  replace read := mapM_eq_some_iff.mp read
  induction read with
  | nil => nofun
  | cons first _ ih => exact List.forall_mem_cons.mpr ⟨⟨_, first⟩, ih⟩

theorem mapM_congr (same : ∀ x ∈ xs, f x = g x) : xs.mapM f = xs.mapM g := by
  induction xs with
  | nil => rfl
  | cons x rest ih =>
    obtain ⟨first, later⟩ := List.forall_mem_cons.mp same
    rw [List.mapM_cons, List.mapM_cons, first, ih later]

end lists

namespace PathQuery
variable {W : Type} [Weight W] {q : PathQuery W} {p p' : Path} {e : EdgeId} {c c' : W}

/-- The weights of the edges add up to `c`, from the left. A path with an edge that has no weight
costs nothing at all. -/
def Costs (q : PathQuery W) (p : Path) (c : W) : Prop :=
  ∃ ws, p.mapM q.weight = some ws ∧ c = Weight.total ws

theorem costs_nil : q.Costs [] (0 : W) := ⟨[], rfl, rfl⟩

theorem Costs.snoc {w : W} (costs : q.Costs p c) (weight : q.weight e = some w) :
    q.Costs (p ++ [e]) (c + w) := by
  obtain ⟨ws, weights, rfl⟩ := costs
  refine ⟨ws ++ [w], ?_, ?_⟩
  · simp [List.mapM_append, weights, weight]
  · simp [Weight.total]

theorem Costs.unique (costs : q.Costs p c) (costs' : q.Costs p c') : c = c' := by
  obtain ⟨ws, weights, rfl⟩ := costs
  obtain ⟨ws', weights', rfl⟩ := costs'
  rw [weights] at weights'
  cases weights'
  rfl

theorem Costs.usable (costs : q.Costs p c) : ∀ e ∈ p, (q.weight e).isSome := by
  obtain ⟨ws, weights, _⟩ := costs
  exact isSome_of_mapM weights

theorem costs_of_usable (usable : ∀ e ∈ p, (q.weight e).isSome) : ∃ c, q.Costs p c := by
  have weighed : ∃ ws, p.mapM q.weight = some ws := by
    induction p with
    | nil => exact ⟨[], rfl⟩
    | cons i rest ih =>
      obtain ⟨first, later⟩ := List.forall_mem_cons.mp usable
      obtain ⟨w, weight⟩ := Option.isSome_iff_exists.mp first
      obtain ⟨ws, weights⟩ := ih later
      exact ⟨w :: ws, by simp [List.mapM_cons, weight, weights]⟩
  obtain ⟨ws, weights⟩ := weighed
  exact ⟨Weight.total ws, ws, weights, rfl⟩

/-- The size of a path is the sum of the sizes of its edges. -/
def sizeSum (size : EdgeId → ℚ) (p : Path) : ℚ := (p.map size).sum

@[simp] theorem sizeSum_append (size : EdgeId → ℚ) (p p' : Path) :
    sizeSum size (p ++ p') = sizeSum size p + sizeSum size p' := by
  simp [sizeSum]

@[simp] theorem sizeSum_cons (size : EdgeId → ℚ) (e : EdgeId) (p : Path) :
    sizeSum size (e :: p) = size e + sizeSum size p := by
  simp [sizeSum]

@[simp] theorem sizeSum_nil (size : EdgeId → ℚ) : sizeSum size [] = 0 := rfl

/-- A sum of so many numbers, none of which is large. -/
theorem sum_map_le {n : EdgeId → ℕ} {most : ℕ} {p : Path} (small : ∀ e ∈ p, n e ≤ most) :
    (p.map n).sum ≤ p.length * most := by
  simpa using List.sum_le_card_nsmul _ most (List.forall_mem_map.mpr small)

/-- Weights listed by edge are as small as the list says. -/
theorem getD_listed_le {weights : List ℕ} {most : ℕ} (small : ∀ k ∈ weights, k ≤ most)
    (e : EdgeId) : (weights[e]?).getD 0 ≤ most := by
  cases listed : weights[e]? with
  | none => exact Nat.zero_le most
  | some k => exact small k (List.mem_of_getElem? listed)

/-- Sizes that are whole numbers are summed up as such. -/
theorem sizeSum_natCast (n : EdgeId → ℕ) (p : Path) :
    sizeSum (fun e => (n e : ℚ)) p = ((p.map n).sum : ℕ) := by
  induction p with
  | nil => simp
  | cons e rest ih => rw [sizeSum_cons, ih, List.map_cons, List.sum_cons, Nat.cast_add]

/-- Weights are not negative and the sums along ways that come to no node twice are exact: they
compare as the sums of the sizes do, and two sums added make the sum of all. -/
structure ExactSums (q : PathQuery W) (size : EdgeId → ℚ) : Prop where
  nonneg : ∀ {e w}, q.weight e = some w → 0 ≤ size e
  lt_iff : ∀ {p p' c c'}, q.graph.LoopFree p → q.graph.LoopFree p' → q.Costs p c →
    q.Costs p' c' → (c < c' ↔ sizeSum size p < sizeSum size p')
  add : ∀ {p p' c c'}, q.graph.LoopFree (p ++ p') → q.Costs p c → q.Costs p' c' →
    q.Costs (p ++ p') (c + c')

/-- The comparisons alone, asked of some ways. -/
structure ExactOn (q : PathQuery W) (ways : Path → Prop) (size : EdgeId → ℚ) : Prop where
  nonneg : ∀ {e w}, q.weight e = some w → 0 ≤ size e
  lt_iff : ∀ {p p' c c'}, ways p → ways p' → q.Costs p c → q.Costs p' c' →
    (c < c' ↔ sizeSum size p < sizeSum size p')

theorem ExactSums.exactOn {size : EdgeId → ℚ} (exact : q.ExactSums size) :
    q.ExactOn q.graph.LoopFree size :=
  ⟨exact.nonneg, exact.lt_iff⟩

/-- A chain of usable edges from the source to the target, which may come to nodes again. -/
structure Joins (q : PathQuery W) (p : Path) : Prop where
  leads : q.graph.Leads q.source p q.target
  usable : ∀ e ∈ p, (q.weight e).isSome

/-- A loop-free path that the query asks for: from its source to its target over usable edges. -/
structure Simple (q : PathQuery W) (p : Path) : Prop where
  nonempty : p ≠ []
  leads : q.graph.Leads q.source p q.target
  distinct : (q.source :: q.graph.stops p).Nodup
  usable : ∀ e ∈ p, (q.weight e).isSome

omit [Weight W] in
theorem simple_iff : q.Simple p ↔
    q.graph.SimplePath q.source p q.target ∧ ∀ e ∈ p, (q.weight e).isSome :=
  ⟨fun simple => ⟨⟨simple.nonempty, simple.leads, simple.distinct⟩, simple.usable⟩,
    fun ⟨path, usable⟩ => ⟨path.nonempty, path.leads, path.distinct, usable⟩⟩

omit [Weight W] in
theorem Simple.joins (simple : q.Simple p) : q.Joins p := ⟨simple.leads, simple.usable⟩

omit [Weight W] in
theorem Simple.loopFree (simple : q.Simple p) : q.graph.LoopFree p :=
  (simple_iff.mp simple).1.loopFree

omit [Weight W] in
theorem Simple.source_ne_target (simple : q.Simple p) : q.source ≠ q.target := by
  intro same
  apply (List.nodup_cons.mp simple.distinct).1
  rw [same]
  exact simple.leads.end_mem_stops simple.nonempty

omit [Weight W] in
theorem Simple.ends_mem (simple : q.Simple p) :
    q.source ∈ q.graph.nodes ∧ q.target ∈ q.graph.nodes := by
  obtain ⟨nonempty, leads, _, _⟩ := simple
  cases p with
  | nil => exact absurd rfl nonempty
  | cons e rest =>
    refine ⟨?_, leads.stops_subset _ (leads.end_mem_stops nonempty)⟩
    obtain ⟨t, edge, _⟩ := leads
    exact (q.graph.closed e _ edge).1

section numbers
variable {size : EdgeId → ℚ} (number : W → ℚ → Prop) (fits : ℚ → Prop) (zero : number 0 0)
  (add : ∀ {c c' x x'}, number c x → number c' x' → fits (x + x') → number (c + c') (x + x'))
  (lt_iff : ∀ {c c' x x'}, number c x → number c' x' → (c < c' ↔ x < x'))
  (unique : ∀ {c c' x}, number c x → number c' x → c = c')
  (weights : ∀ {e w}, q.weight e = some w → 0 ≤ size e ∧ number w (size e))

include zero add lt_iff unique weights

/-- Costs that stand for numbers and are added and compared like these are exact on all lists of
edges of a kind that has their parts too, as long as their sums stay within what can be added. -/
theorem exact_of_numbers (kind : Path → Prop)
    (parts : ∀ {p p' : Path}, kind (p ++ p') → kind p ∧ kind p')
    (bounded : ∀ {p : Path}, kind p → (∀ e ∈ p, (q.weight e).isSome) → fits (sizeSum size p)) :
    (∀ {p p' : Path} {c c'}, kind p → kind p' → q.Costs p c → q.Costs p' c' →
      (c < c' ↔ sizeSum size p < sizeSum size p')) ∧
    ∀ {p p' : Path} {c c'}, kind (p ++ p') → q.Costs p c → q.Costs p' c' →
      q.Costs (p ++ p') (c + c') := by
  have cost : ∀ {p : Path} {c}, kind p → q.Costs p c → number c (sizeSum size p) := by
    intro p
    induction p using List.reverseRecOn with
    | nil =>
      rintro c _ ⟨ws, weighed, rfl⟩
      cases weighed
      exact zero
    | append_singleton p e ih =>
      rintro c here costs
      have usable := costs.usable
      have ⟨w, weight⟩ := Option.isSome_iff_exists.mp (usable e (by simp))
      have ⟨c', costs'⟩ := costs_of_usable fun i mem => usable i (List.mem_append_left _ mem)
      have same : c = c' + w := costs.unique (costs'.snoc weight)
      have total := bounded here usable
      have first := ih (parts here).1 costs'
      simp only [sizeSum_append, sizeSum_cons, sizeSum_nil, add_zero] at total ⊢
      rw [same]
      exact add first (weights weight).2 total
  constructor
  · intro p p' c c' here here' costs costs'
    exact lt_iff (cost here costs) (cost here' costs')
  · intro p p' c c' here costs costs'
    have usable : ∀ e ∈ p ++ p', (q.weight e).isSome := by
      intro e mem
      rcases List.mem_append.mp mem with first | second
      · exact costs.usable e first
      · exact costs'.usable e second
    have ⟨joined, costs_joined⟩ := costs_of_usable usable
    have total := bounded here usable
    have ⟨first, second⟩ := parts here
    have whole := cost here costs_joined
    rw [sizeSum_append] at total whole
    rwa [← unique whole (add (cost first costs) (cost second costs') total)]

/-- So it is where the sums over ways that come to no node twice stay within. -/
theorem exactSums_of_numbers
    (bounded : ∀ {p : Path}, q.graph.LoopFree p → (∀ e ∈ p, (q.weight e).isSome) →
      fits (sizeSum size p)) :
    q.ExactSums size := by
  have ⟨compare, join⟩ := exact_of_numbers number fits zero add lt_iff unique weights
    q.graph.LoopFree Graph.LoopFree.parts bounded
  exact ⟨fun weight => (weights weight).1, compare, join⟩

/-- So it is along any kind of ways whose sums stay within. -/
theorem exactOn_of_numbers (kind : Path → Prop)
    (parts : ∀ {p p' : Path}, kind (p ++ p') → kind p ∧ kind p')
    (bounded : ∀ {p : Path}, kind p → (∀ e ∈ p, (q.weight e).isSome) → fits (sizeSum size p)) :
    q.ExactOn kind size :=
  ⟨fun weight => (weights weight).1,
    (exact_of_numbers number fits zero add lt_iff unique weights kind parts bounded).1⟩

end numbers

section whole
variable {K : Type} [Quantity K] {q : PathQuery K} {bound : ℕ} (whole : WholeUpTo K bound)
  {n : EdgeId → ℕ} (weights : ∀ {e w}, q.weight e = some w → n e ≤ bound ∧ w = (n e : K))

include weights in
theorem standsFor_weight {w : K} (weight : q.weight e = some w) :
    (0 : ℚ) ≤ n e ∧ StandsFor bound w (n e) := by
  obtain ⟨small, same⟩ := weights weight
  exact ⟨Nat.cast_nonneg _, n e, small, same, rfl⟩

include whole weights

/-- Weights that are whole numbers are exact along all ways whose sum stays within what is reckoned
with exactly. -/
theorem exactOn_whole : q.ExactOn (fun p => (p.map n).sum ≤ bound) fun e => n e := by
  refine exactOn_of_numbers (StandsFor bound) (· ≤ (bound : ℚ)) (.zero whole) (.add whole)
    (StandsFor.lt_iff whole) StandsFor.unique (standsFor_weight weights) _ (fun within => ?_)
    fun within _ => ?_
  · rw [List.map_append, List.sum_append] at within
    omega
  · rw [sizeSum_natCast]
    exact_mod_cast within

/-- Their sums are exact if those along ways that come to no node twice stay within. -/
theorem exactSums_whole (within : ∀ {p : Path}, q.graph.LoopFree p →
    (∀ e ∈ p, (q.weight e).isSome) → (p.map n).sum ≤ bound) :
    q.ExactSums fun e => n e := by
  refine exactSums_of_numbers (StandsFor bound) (· ≤ (bound : ℚ)) (.zero whole) (.add whole)
    (StandsFor.lt_iff whole) StandsFor.unique (standsFor_weight weights) fun loopFree usable => ?_
  rw [sizeSum_natCast]
  exact_mod_cast within loopFree usable

end whole

/-- Whole numbers are exact. -/
theorem exactSums_nat (q : PathQuery ℕ) :
    q.ExactSums fun e => ((q.weight e).getD 0 : ℕ) := by
  refine exactSums_of_numbers (fun n x => x = (n : ℚ)) (fun _ => True) Nat.cast_zero.symm
    ?_ ?_ ?_ ?_ fun _ _ => trivial
  · rintro n m _ _ rfl rfl _
    exact (Nat.cast_add n m).symm
  · rintro n m _ _ rfl rfl
    exact Nat.cast_lt.symm
  · rintro n m _ rfl same
    exact Nat.cast_injective same
  · intro e w weight
    rw [weight]
    exact ⟨Nat.cast_nonneg _, rfl⟩

end PathQuery
end FlowAdmission
