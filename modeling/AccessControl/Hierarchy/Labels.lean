import AccessControl.Hierarchy.Graph
import AccessControl.Value.Member

/-! # Role graphs in values

A role graph may be given by edges between any values; values that are alike are one role.  A lower
end that is no member of a set is refused, but it stays below the higher one: it is no role, and
every question that meets it fails.  To be met by a search, it is kept as an entry of its own that
leads back to itself. -/

namespace AccessControl

/-- A role graph whose roles are values. -/
abbrev LabelGraph := RoleGraph Value.Member

namespace LabelGraph

/-! ### Construction -/

/-- The failure of an edge that has not two ends. -/
def endsFailure (count : Nat) : Failure :=
  .value (if 2 < count then "too many values to unpack (expected 2)"
    else "not enough values to unpack (expected 2, got " ++ Text.natText count ++ ")")

/-- The ends of an edge. -/
def endsOf (edge : Value) : Except Failure (Value × Value) :=
  match edge.elements with
  | none => .error (.type none)
  | some [higher, lower] => .ok (higher, lower)
  | some ends => .error (endsFailure ends.length)

/-- Adds an edge between two values.  The result says whether both are roles. -/
def addEdge (g : LabelGraph) (higher lower : Value) : Bool × LabelGraph :=
  if !higher.isScalar then (false, g)
  else if lower.isScalar then (true, RoleGraph.addEdge g ⟨higher⟩ ⟨lower⟩)
  else (false, RoleGraph.addEdge (RoleGraph.addEdge g ⟨higher⟩ ⟨lower⟩) ⟨lower⟩ ⟨lower⟩)

/-- Adds edges, one after the other. -/
def addEdges (g : LabelGraph) : List Value → Except Failure LabelGraph
  | [] => .ok g
  | edge :: edges => do
    let (higher, lower) ← endsOf edge
    match g.addEdge higher lower with
    | (true, g) => addEdges g edges
    | (false, _) => .error (.type none)

/-- The graph with the edges in a value. -/
def ofValue (edges : Value) : Except Failure LabelGraph :=
  match edges.elements with
  | some edges => addEdges RoleGraph.empty edges
  | none => if edges.isTruthy then .error (.type none) else .ok RoleGraph.empty

/-! ### Questions -/

/-- The roles of a graph that are met; a value that is no role is refused. -/
def rolesAmong (met : List Value.Member) : Except Failure (List Value) :=
  if met.all (·.value.isScalar) then .ok (met.map (·.value)) else .error (.type none)

/-- The roles of the graph in ascending order. -/
def nodes (g : LabelGraph) : Except Failure (List Value) :=
  Value.inOrder ((RoleGraph.nodes g).filterMap fun m =>
    if m.value.isScalar then some m.value else none)

/-- What a role manages, in order. -/
def children (g : LabelGraph) (role : Value) : Except Failure (List Value) := do
  return (RoleGraph.children g (← role.toMember)).map (·.value)

/-- Does a role manage a value directly? -/
def hasEdge (g : LabelGraph) (higher lower : Value) : Except Failure Bool := do
  return RoleGraph.hasEdge g (← higher.toMember) ⟨lower⟩

/-- The roles that manage somebody and are managed by nobody, in order. -/
def roots (g : LabelGraph) : Except Failure (List Value) := do
  let _ ← rolesAmong (RoleGraph.nodes g)
  return (RoleGraph.roots g).map (·.value)

/-- One cycle as a closed path, if there is any. -/
def findCycle (g : LabelGraph) : Except Failure (Option (List Value)) :=
  (RoleGraph.findCycle g).mapM rolesAmong

/-- The greatest number of edges that a value allows; any number is allowed by null. -/
def depthOf : Value → Except Failure (Option Int)
  | .null => .ok none
  | .float x => .ok (if x.isNotPositive then some 0 else x.ceiling)
  | v =>
    match v.whole? with
    | some n => .ok (some n)
    | none => .error (.type none)

/-- The roles below a role, at most so many edges away. -/
def descendants (g : LabelGraph) (role depth : Value) : Except Failure (List Value) := do
  let role ← role.toMember
  rolesAmong (RoleGraph.descendants g role (← depthOf depth))

/-- Is the second value below the first, at most so many edges away? -/
def reaches (g : LabelGraph) (source target depth : Value) : Except Failure Bool := do
  let below ← g.descendants source depth
  let target ← target.toMember
  return target.value.isAmong below

end LabelGraph
end AccessControl
