import FlowAdmission.Error
import FlowAdmission.Graph.RankedPaths

/-!
# Index of shortest paths

For every ordered pair of distinct nodes the loop-free paths are kept in tiers of equal edge
count, shortest first, up to a fixed number of tiers.
-/
namespace FlowAdmission

/-- The paths of one edge count between two nodes. -/
abbrev Tier := List Path

/-- The tiers from one node, by destination. -/
abbrev TierTable := Std.ExtTreeMap NodeId (List Tier)

structure PathIndex where
  /-- How many tiers are kept for a pair. -/
  depth : Nat
  /-- By source. -/
  tables : Std.ExtTreeMap NodeId TierTable
  deriving DecidableEq

namespace PathIndex

/-- The index that knows no pair. -/
def empty : PathIndex := ⟨0, ∅⟩

/-- Every edge weighs one, so paths come in order of their edge counts. -/
def hopQuery (g : Graph) (source destination : NodeId) : PathQuery Nat :=
  ⟨g, fun _ => some 1, source, destination⟩

/-- Files a path behind the ones before it. Tiers, and the paths in them, stand newest first. A
path longer than the newest tier opens a tier, or ends the search when all tiers are there. -/
def file (depth : Nat) (tiers : List Tier) (path : Path) : ForInStep (List Tier) :=
  match tiers with
  | (last :: tier) :: older =>
    if path.length = last.length then .yield ((path :: last :: tier) :: older)
    else if tiers.length = depth then .done tiers
    else .yield ([path] :: tiers)
  | _ => if tiers.length = depth then .done tiers else .yield ([path] :: tiers)

/-- The first `depth` tiers of a pair, shortest first, paths in the order of the enumeration. -/
def tiersBetween (g : Graph) (depth : Nat) (source destination : NodeId) : List Tier :=
  let q := hopQuery g source destination
  let tiers := q.explore (fun tiers item => file depth tiers item.2) q.pathBound [] .fresh
  (tiers.map List.reverse).reverse

/-- The tiers from a node to every other one. -/
def table (g : Graph) (depth : Nat) (source : NodeId) : TierTable :=
  .ofList ((g.nodes.toList.filter (· != source)).map fun destination =>
    (destination, tiersBetween g depth source destination))

/-- An index of no depth knows no pair. -/
def build (g : Graph) (depth : Nat) : PathIndex where
  depth
  tables :=
    if depth = 0 then ∅
    else .ofList (g.nodes.toList.map fun source => (source, table g depth source))

/-- The tiers of a pair, if it is indexed. A pair without a path has none. -/
def tiers? (index : PathIndex) (source destination : NodeId) : Option (List Tier) :=
  index.tables[source]?.bind (·[destination]?)

def tierCount (index : PathIndex) (source destination : NodeId) : Except Error Nat :=
  match index.tiers? source destination with
  | none => .error (.unindexed source destination 0)
  | some tiers => .ok tiers.length

/-- One tier of a pair, refused when the pair has no such tier. -/
def tier (index : PathIndex) (source destination : NodeId) (level : Nat) : Except Error Tier :=
  match (index.tiers? source destination).bind (·[level]?) with
  | none => .error (.unindexed source destination level)
  | some tier => .ok tier

/-- The paths of the first `levels` tiers, shortest first. -/
def firstPaths (index : PathIndex) (source destination : NodeId) (levels : Nat) :
    Except Error (List Path) :=
  match index.tiers? source destination with
  | none => .error (.unindexed source destination 0)
  | some tiers => .ok (tiers.take levels).flatten

end PathIndex
end FlowAdmission
