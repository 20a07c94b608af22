import FlowAdmission.Graph.TableRanking
import FlowAdmission.Proofs.Graph.RankedPaths
import FlowAdmission.Proofs.Graph.TableSearch

/-!
# Paths in order of cost, over hash tables

Tables that are read alike give the same paths in the same order, whatever the weights are
(`ReadAlike.takePaths`).

Where searches over the tables answer as those over the graph do (`Adjacency.Answers`), the
enumeration over tables goes in step with the one over the graph (`Ranking.Tracks`): the number that
each candidate is given puts those of one cost in the order of their discovery. So both yield the
same paths (`Serves.paths`): over doubles for all weights that are not negative
(`Linked.paths_float`), and over any numbers where sums are exact (`Linked.paths_exact`).
-/
namespace FlowAdmission
variable {W : Type} [Weight W]

/-! ### Tables that are read alike -/

namespace Adjacency.ReadAlike
variable {a a' : Adjacency} {weight : EdgeId → Option W}

theorem pathNodes? (alike : a.ReadAlike a') (path : Path) :
    a'.pathNodes? path = a.pathNodes? path := by
  cases path with
  | nil => rfl
  | cons e rest => simp only [Adjacency.pathNodes?, alike.edges]

omit [Weight W] in
theorem openWeight (alike : a.ReadAlike a') (weight : EdgeId → Option W)
    (closedEdges : Std.HashSet EdgeId) (closedNodes : Std.HashSet NodeId) :
    a'.openWeight weight closedEdges closedNodes = a.openWeight weight closedEdges closedNodes := by
  funext e
  simp only [Adjacency.openWeight, alike.edges]

theorem deviate (alike : a.ReadAlike a') (weight : EdgeId → Option W) (target : NodeId)
    (latest : Path) (nodes : List NodeId) :
    a'.deviate weight target latest nodes = a.deviate weight target latest nodes := by
  funext r i
  simp only [Adjacency.deviate, Adjacency.deviation?, alike.openWeight, alike.shortest?]

theorem nextPath (alike : a.ReadAlike a') (weight : EdgeId → Option W) (source target : NodeId)
    (r : Ranking W) : a'.nextPath weight source target r = a.nextPath weight source target r := by
  simp only [Adjacency.nextPath, Adjacency.expandLast, alike.pathNodes?, alike.deviate,
    alike.shortest?]

/-- Whatever the weights are, tables that are read alike give the same paths. -/
theorem takePaths (alike : a.ReadAlike a') (weight : EdgeId → Option W) (source target : NodeId)
    (count : Nat) (r : Ranking W) :
    a'.takePaths weight source target count r = a.takePaths weight source target count r := by
  induction count generalizing r with
  | zero => rfl
  | succ count ih => simp only [Adjacency.takePaths, alike.nextPath, ih]

end Adjacency.ReadAlike

/-! ### Searches that an enumeration makes -/

/-- They compare costs as the enumeration does. -/
theorem PathQuery.OrdersCosts.detourQuery {q : PathQuery W} (orders : q.OrdersCosts)
    (spur : NodeId) (closed : List EdgeId) (before : List NodeId) :
    (q.detourQuery spur closed before).OrdersCosts := by
  have incurs : ∀ {c}, (q.detourQuery spur closed before).Incurs c → q.Incurs c :=
    fun ⟨p, way, costs⟩ => ⟨p, way, (costs_detourQuery.mp costs).1⟩
  exact ⟨fun cost => orders.irrefl (incurs cost),
    fun cost cost' cost'' => orders.trans (incurs cost) (incurs cost') (incurs cost''),
    fun cost cost' cost'' => orders.between (incurs cost) (incurs cost') (incurs cost'')⟩

namespace Adjacency
variable {a : Adjacency} {q : PathQuery W}

/-- Searches over the tables answer as those over the graph of the query do. -/
structure Answers (a : Adjacency) (q : PathQuery W) : Prop where
  edges : ∀ id, a.edge? id = q.graph.edge? id
  shortest : a.shortest? q.weight q.source q.target = q.shortest?
  detours : ∀ spur closed before,
    let detours := q.detourQuery spur closed before
    a.shortest? detours.weight spur q.target = detours.shortest?

theorem Serves.answers (serves : a.Serves q) : a.Answers q := by
  obtain ⟨linked, shown, orders⟩ := serves
  obtain ⟨graph, weight, source, target⟩ := q
  obtain rfl : graph = a.graph := shown
  exact ⟨fun id => (a.edge?_graph id).symm, linked.shortest?_eq weight source target orders,
    fun spur closed before =>
      linked.shortest?_eq _ spur target (orders.detourQuery spur closed before)⟩

namespace Answers

theorem pathNodes? (answers : a.Answers q) (path : Path) :
    a.pathNodes? path = q.graph.pathNodes? path := by
  cases path with
  | nil => rfl
  | cons e rest => simp only [Adjacency.pathNodes?, Graph.pathNodes?, answers.edges]

theorem openWeight (answers : a.Answers q) (spur : NodeId) (closed : List EdgeId)
    (before : List NodeId) :
    a.openWeight q.weight (.ofList closed) (.ofList before) =
      (q.detourQuery spur closed before).weight := by
  funext e
  rw [Adjacency.openWeight, answers.edges]
  cases found : q.graph.edge? e <;> simp [PathQuery.detourQuery, found]

theorem deviation? (answers : a.Answers q) (yielded : List Path) (latest : Path)
    (nodes : List NodeId) (i : Nat) :
    a.deviation? q.weight q.target yielded latest nodes i = q.detour? yielded latest nodes i := by
  unfold Adjacency.deviation? PathQuery.detour?
  dsimp only
  cases nodes[i]? with
  | none => rfl
  | some spur =>
    cases (latest.take i).mapM q.weight with
    | none => rfl
    | some ws =>
      simp only [Option.bind_eq_bind, Option.bind_some]
      rw [answers.openWeight spur, answers.detours]

end Answers
end Adjacency

/-! ### Two enumerations in step -/

namespace Ranking
variable {a : Adjacency} {q : PathQuery W} {r : Ranking W} {yielded earlier : List Path}
  {latest : Path} {waiting : List (W × Path)}

/-- A candidate without its number. -/
def Candidate.item (c : Candidate W) : W × Path := (c.cost, c.path)

/-- The one that was found last goes behind all others of its cost. -/
theorem map_insertStable {cs : List (Candidate W)} {c : Candidate W}
    (last : ∀ d ∈ cs, d.sequence < c.sequence) :
    (insertStable precedes c cs).map Candidate.item =
      PathQuery.enqueue c.item (cs.map Candidate.item) := by
  unfold PathQuery.enqueue
  induction cs with
  | nil => rfl
  | cons d rest ih =>
    obtain ⟨later, last⟩ := List.forall_mem_cons.mp last
    have same : precedes c d = decide (c.item.1 < d.item.1) := by
      show precedes c d = decide (c.cost < d.cost)
      simp [precedes, Nat.lt_asymm later]
    rw [List.map_cons, insertStable, insertStable, same]
    split
    · rfl
    · rw [List.map_cons, ih last]

/-- Some paths have been accepted, and the candidates are those that wait. -/
structure Running (r : Ranking W) (yielded : List Path) (waiting : List (W × Path)) : Prop where
  accepted : r.accepted = yielded
  candidates : r.candidates.map Candidate.item = waiting
  seen : ∀ p, p ∈ r.seen ↔ p ∈ yielded ∨ p ∈ waiting.map (·.2)
  numbered : ∀ c ∈ r.candidates, c.sequence ≤ r.sequence
  started : r.started = true
  goes_on : r.exhausted = false

/-- The two enumerations have come equally far. -/
def Tracks (r : Ranking W) : Enumeration W → Prop
  | .fresh => r = {}
  | .active latest earlier waiting => r.Running (latest :: earlier) waiting
  | .exhausted => r.exhausted = true

/-- A path that was seen keeps its place, a new one is queued. -/
theorem Running.push (running : r.Running yielded waiting) (cost : W) (path : Path) :
    (r.push cost path).Running yielded
      (if path ∈ yielded ∨ path ∈ waiting.map (·.2) then waiting
        else PathQuery.enqueue (cost, path) waiting) := by
  have seen := running.seen path
  by_cases old : path ∈ yielded ∨ path ∈ waiting.map (·.2)
  · rw [if_pos old, Ranking.push, if_pos (Std.HashSet.contains_iff_mem.mpr (seen.mpr old))]
    exact running
  · rw [if_neg old, Ranking.push, if_neg (mt Std.HashSet.contains_iff_mem.mp (mt seen.mp old))]
    refine ⟨running.accepted, ?_, fun p => ?_, fun c mem => ?_, running.started, running.goes_on⟩
    · rw [map_insertStable fun c mem => Nat.lt_succ_of_le (running.numbered c mem),
        running.candidates]
      rfl
    · simp only [Std.HashSet.mem_insert, running.seen, List.mem_map, PathQuery.mem_enqueue]
      grind
    · rcases List.mem_cons.mp ((insertStable_perm _ _ _).mem_iff.mp mem) with rfl | old
      · exact Nat.le_refl _
      · exact Nat.le_succ_of_le (running.numbered c old)

theorem Running.deviate (running : r.Running (latest :: earlier) waiting)
    (answers : a.Answers q) (nodes : List NodeId) (i : Nat) :
    (a.deviate q.weight q.target latest nodes r i).Running (latest :: earlier)
      (q.queueDetour latest earlier nodes waiting i) := by
  unfold Adjacency.deviate PathQuery.queueDetour
  rw [running.accepted, answers.deviation?]
  cases q.detour? (latest :: earlier) latest nodes i with
  | none => exact running
  | some item => exact running.push item.1 item.2

theorem Running.expandLast (running : r.Running (latest :: earlier) waiting)
    (answers : a.Answers q) :
    (a.expandLast q.weight q.target r).Running (latest :: earlier)
      (q.expand latest earlier waiting) := by
  unfold Adjacency.expandLast PathQuery.expand
  rw [running.accepted]
  dsimp only
  rw [answers.pathNodes?]
  cases q.graph.pathNodes? latest with
  | none => exact running
  | some nodes =>
    dsimp only
    generalize List.range latest.length = places
    induction places generalizing r waiting with
    | nil => exact running
    | cons i rest ih => exact ih (running.deviate answers nodes i)

omit [Weight W] in
theorem Running.pop_nil (running : r.Running yielded []) :
    r.pop.1 = none ∧ r.pop.2.exhausted = true := by
  have none : r.candidates = [] := List.map_eq_nil_iff.mp running.candidates
  unfold Ranking.pop
  rw [none]
  exact ⟨rfl, rfl⟩

omit [Weight W] in
/-- The first path that waits is accepted. -/
theorem Running.pop_cons {item : W × Path} (running : r.Running yielded (item :: waiting)) :
    r.pop.1 = some item ∧ r.pop.2.Running (item.2 :: yielded) waiting := by
  obtain ⟨c, rest, candidates, rfl, rfl⟩ := List.map_eq_cons_iff.mp running.candidates
  have numbered := running.numbered
  rw [candidates] at numbered
  unfold Ranking.pop
  rw [candidates]
  refine ⟨rfl, ?_, rfl, fun p => ?_, (List.forall_mem_cons.mp numbered).2, running.started,
    running.goes_on⟩
  · rw [running.accepted]
    rfl
  · rw [running.seen, List.map_cons, List.mem_cons, List.mem_cons, or_left_comm, or_assoc]

/-- A call gives the same path to both. -/
theorem Tracks.nextPath {state : Enumeration W} (tracks : r.Tracks state) (answers : a.Answers q) :
    (a.nextPath q.weight q.source q.target r).1 = (q.next state).1 ∧
      (a.nextPath q.weight q.source q.target r).2.Tracks (q.next state).2 := by
  unfold Adjacency.nextPath
  cases state with
  | exhausted =>
    have ended : r.exhausted = true := tracks
    rw [if_pos ended]
    exact ⟨rfl, ended⟩
  | fresh =>
    obtain rfl : r = {} := tracks
    rw [answers.shortest]
    unfold PathQuery.next
    dsimp only
    cases q.shortest? with
    | none => exact ⟨rfl, rfl⟩
    | some item => exact ⟨rfl, rfl, rfl, fun p => by simp [eq_comm (a := p)], nofun, rfl, rfl⟩
  | active latest earlier waiting =>
    have running : r.Running (latest :: earlier) waiting := tracks
    have expanded := running.expandLast answers
    rw [running.goes_on, running.started]
    simp only [Bool.false_eq_true, Bool.not_true, if_false]
    unfold PathQuery.next
    dsimp only
    cases found : q.expand latest earlier waiting with
    | nil => exact (found ▸ expanded).pop_nil
    | cons item rest => exact (found ▸ expanded).pop_cons

/-- So do several calls. -/
theorem Tracks.takePaths {state : Enumeration W} (tracks : r.Tracks state) (answers : a.Answers q)
    (count : Nat) :
    (a.takePaths q.weight q.source q.target count r).1 = (q.take count state).1 ∧
      (a.takePaths q.weight q.source q.target count r).2.Tracks (q.take count state).2 := by
  induction count generalizing r state with
  | zero => exact ⟨rfl, tracks⟩
  | succ count ih =>
    obtain ⟨same, tracks'⟩ := tracks.nextPath answers
    unfold Adjacency.takePaths PathQuery.take
    generalize a.nextPath q.weight q.source q.target r = call at same tracks' ⊢
    generalize q.next state = call' at same tracks' ⊢
    obtain ⟨item, r'⟩ := call
    obtain ⟨item', state'⟩ := call'
    obtain rfl : item = item' := same
    cases item with
    | none => exact ⟨rfl, tracks'⟩
    | some item =>
      obtain ⟨items, later⟩ := ih tracks'
      exact ⟨congrArg (item :: ·) items, later⟩

end Ranking

namespace Adjacency
variable {a : Adjacency}

/-- Searches over the tables find the path that the search by labels finds, and enumerations the
paths of the enumeration over the graph, in the same order. -/
theorem Serves.paths {q : PathQuery W} (serves : a.Serves q) :
    a.shortest? q.weight q.source q.target = q.shortest? ∧
      ∀ count, (a.takePaths q.weight q.source q.target count {}).1 = (q.take count .fresh).1 := by
  have start : Ranking.Tracks ({} : Ranking W) .fresh := rfl
  exact ⟨serves.answers.shortest, fun count => (start.takePaths serves.answers count).1⟩

/-- Over doubles they do so whatever the weights are, as long as none is negative. -/
theorem Linked.paths_float {q : PathQuery Float} (linked : a.Linked) (shown : q.graph = a.graph)
    (nonneg : ∀ e w, q.weight e = some w → 0 ≤ w) :
    a.shortest? q.weight q.source q.target = q.shortest? ∧
      ∀ count, (a.takePaths q.weight q.source q.target count {}).1 = (q.take count .fresh).1 :=
  Serves.paths ⟨linked, shown, PathQuery.ordersCosts_float nonneg⟩

/-- Over other numbers they do so where the sums along ways that come to no node twice are exact. -/
theorem Linked.paths_exact {q : PathQuery W} {size : EdgeId → ℚ} (linked : a.Linked)
    (shown : q.graph = a.graph) (exact : q.ExactSums size) :
    a.shortest? q.weight q.source q.target = q.shortest? ∧
      ∀ count, (a.takePaths q.weight q.source q.target count {}).1 = (q.take count .fresh).1 :=
  Serves.paths ⟨linked, shown, exact.ordersCosts⟩

end Adjacency
end FlowAdmission
