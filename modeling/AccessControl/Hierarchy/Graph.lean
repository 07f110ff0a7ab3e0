import AccessControl.Order
import AccessControl.Text.Blank

/-! # Role graphs

The hierarchy of one store is a directed graph on roles: an edge goes from the managing role to the
managed one.  A graph keeps its roles, and the roles that each manages, in the order in which they
were added.  What a role is called is left open; the hierarchies of stores use numbers.

`RoleGraph.findCycle` searches depth first and gives one cycle as a closed path.
`RoleGraph.descendants` widens breadth first from a role, level by level, and gives every other role
that is met.  `RoleGraph.forest` unfolds the graph into trees below the roles that nobody manages;
each role is unfolded once. -/

namespace AccessControl

/-- A directed graph on roles. -/
structure RoleGraph (α : Type) where
  adjacency : List (α × List α)
  deriving DecidableEq, Repr

namespace RoleGraph

variable {α : Type} [BEq α]

/-! ### Construction -/

/-- The graph without roles. -/
def empty : RoleGraph α := ⟨[]⟩

/-- The roles that a role manages, in order. -/
def children (g : RoleGraph α) (role : α) : List α := (g.adjacency.lookup role).getD []

/-- The roles of the graph, in order. -/
def nodes (g : RoleGraph α) : List α := g.adjacency.map (·.1)

/-- Does the first role manage the second directly? -/
def hasEdge (g : RoleGraph α) (higher lower : α) : Bool := (g.children higher).contains lower

/-- Adds a role that manages nobody, unless it is there. -/
def addNode (g : RoleGraph α) (role : α) : RoleGraph α :=
  if g.nodes.contains role then g else ⟨g.adjacency ++ [(role, [])]⟩

/-- Adds a managed role to the roles of a manager, unless it is there. -/
def addChild (g : RoleGraph α) (higher lower : α) : RoleGraph α :=
  ⟨g.adjacency.map fun entry =>
    if entry.1 == higher && !entry.2.contains lower then (entry.1, entry.2 ++ [lower]) else entry⟩

/-- Adds an edge. -/
def addEdge (g : RoleGraph α) (higher lower : α) : RoleGraph α :=
  ((g.addNode higher).addChild higher lower).addNode lower

/-- The graph with the edges, added from first to last. -/
def ofEdges (edges : List (α × α)) : RoleGraph α :=
  edges.foldl (fun g e => g.addEdge e.1 e.2) empty

/-- The roles that manage somebody and are managed by nobody, in order. -/
def roots (g : RoleGraph α) : List α :=
  g.nodes.filter fun role => !(g.children role).isEmpty &&
    !(g.nodes.any fun higher => g.hasEdge higher role)

/-! ### Cycles -/

/-- The closed path from the last visit of `role` to the end of a path that is held in reverse. -/
def closedPath (path : List α) (role : α) : List α :=
  path.reverse.dropWhile (· != role) ++ [role]

/-- Searches below the roles of a list, depth first.  `path` holds the roles above, nearest first,
and `cleared` the roles without a cycle below.  The result is a cycle, or the cleared roles.  The
count bounds the depth. -/
def search (g : RoleGraph α) : Nat → List α → List α → List α → Except (List α) (List α)
  | _, _, cleared, [] => .ok cleared
  | depth, path, cleared, role :: roles =>
    if path.contains role then .error (closedPath path role)
    else if cleared.contains role then search g depth path cleared roles
    else
      match depth with
      | 0 => .ok cleared
      | below + 1 =>
        match search g below (role :: path) cleared (g.children role) with
        | .error cycle => .error cycle
        | .ok cleared => search g (below + 1) path (role :: cleared) roles
termination_by depth _ _ roles => (depth, roles.length)

/-- One cycle as a closed path, if there is any. -/
def findCycle (g : RoleGraph α) : Option (List α) :=
  match g.search (g.nodes.length + 1) [] [] g.nodes with
  | .error cycle => some cycle
  | .ok _ => none

/-- Is there a cycle? -/
def hasCycle (g : RoleGraph α) : Bool := g.findCycle.isSome

/-! ### Descendants -/

/-- The roles met so far and those at most so many edges below the frontier. -/
def widen (g : RoleGraph α) : Nat → List α → List α → List α
  | 0, _, met => met
  | levels + 1, frontier, met =>
    let next := Text.distinct ((frontier.flatMap g.children).filter (!met.contains ·))
    if next.isEmpty then met else widen g levels next (met ++ next)

/-- The roles below a role, itself left out: at most `maxDepth` edges away, or at any distance. -/
def descendants (g : RoleGraph α) (role : α) (maxDepth : Option Int) : List α :=
  let levels := match maxDepth with
    | some depth => depth.toNat
    | none => g.nodes.length
  (g.widen levels [role] [role]).filter (· != role)

/-- Is the second role below the first? -/
def reaches (g : RoleGraph α) (source target : α) (maxDepth : Option Int) : Bool :=
  (g.descendants source maxDepth).contains target

/-! ### Trees -/

/-- A role with the roles shown below it. -/
inductive Tree (α : Type) where
  | node (role : α) (children : List (Tree α))

/-- Unfolds the roles of a list from left to right.  `expanded` holds the roles that were unfolded
before; they are shown without children.  The count bounds the depth. -/
def unfoldAll (g : RoleGraph α) : Nat → List α → List α → List (Tree α) × List α
  | _, expanded, [] => ([], expanded)
  | depth, expanded, role :: roles =>
    if expanded.contains role then
      let (rest, expanded) := unfoldAll g depth expanded roles
      (.node role [] :: rest, expanded)
    else
      match depth with
      | 0 => ([], expanded)
      | below + 1 =>
        let (children, expanded) := unfoldAll g below (role :: expanded) (g.children role)
        let (rest, expanded) := unfoldAll g (below + 1) expanded roles
        (.node role children :: rest, expanded)
termination_by depth _ roles => (depth, roles.length)

/-- The trees below the roles that nobody manages. -/
def forest (g : RoleGraph α) : List (Tree α) := (g.unfoldAll (g.nodes.length + 1) [] g.roots).1

end RoleGraph
end AccessControl
