import AccessControl.Session.State

/-! # The hierarchy of a store

Edges between roles are checked, added, removed and switched on and off.  An edge is refused when it
would close a cycle of active edges.  Every change forgets the role graph that the session keeps for
the store, and raises the epoch of the store, so that permissions that were remembered before are
not found again; a session without a cache of its own for the hierarchy leaves the epoch alone. -/

namespace AccessControl.Session

open Database

/-! ### Graphs -/

/-- The role graph of a store: the one that is kept, or that of the active edges, which is then
kept. -/
def graph (store : Value) : SessionM (RoleGraph Int) := do
  if !store.isScalar then throw (.type none)
  else
    let s ← current
    match s.graphs.find? (·.1.alike store) with
    | some kept => return kept.2
    | none =>
      let g := (← asked store).elim .empty s.tables.graphOf
      modifyThe Session fun s => { s with graphs := (store, g) :: s.graphs }
      return g

/-- Forgets what was derived from the hierarchy of a store. -/
def hierarchyChanged (cached : Bool) (store : Value) : SessionM Unit := do
  modifyThe Session fun s => { s with graphs := s.graphs.filter (!·.1.alike store) }
  if cached then
    let _ ← (Cache.bumpStoreEpoch store : CacheM Int)

/-- The edge between two roles in a store, active or not. -/
def findEdge (higher lower store : Value) : SessionM (Option EdgeRow) := do
  match ← askedAll [higher, lower, store] with
  | some [h, l, s] => return (← current).tables.edge? h l s
  | _ => return none

/-! ### Checks -/

/-- The cycle that an edge closes with the active edges of the store, by the texts of its roles. -/
def closedCycle (tables : Tables) (higher lower : Value) (store : Option Int) :
    Option (List String) :=
  match higher, lower with
  | .int h, .int l =>
    let joined := (store.elim .empty tables.graphOf).addEdge h l
    joined.findCycle.map (·.map Text.intText)
  | _, _ =>
    let present := (store.elim [] tables.activeEdges).map fun e =>
      (Value.Member.mk (.int e.higher), Value.Member.mk (.int e.lower))
    let joined := (RoleGraph.ofEdges present).addEdge ⟨higher⟩ ⟨lower⟩
    joined.findCycle.map (·.map (·.value.display))

/-- The problem of an edge that closes a cycle with the active edges of the store. -/
def cycleProblems (tables : Tables) (higher lower : Value) (store : Option Int) : List String :=
  match closedCycle tables higher lower store with
  | none => []
  | some cycle =>
    ["This would create a circular hierarchy (" ++ String.intercalate " -> " cycle ++ ")"]

/-- All problems of an edge that is to be added. -/
def edgeProblems (higher lower store : Value) : SessionM (List String) := do
  let higherThere ← exists? Tables.hasRole higher
  let lowerThere ← exists? Tables.hasRole lower
  let storeThere ← exists? Tables.hasStore store
  let missing :=
    (if higherThere then [] else ["Higher role does not exist"]) ++
    (if lowerThere then [] else ["Lower role does not exist"]) ++
    (if storeThere then [] else ["Store does not exist"])
  if higher.alike lower then return missing ++ ["A role cannot manage itself"]
  else
    let repeated :=
      if (← findEdge higher lower store).isSome then
        ["This hierarchy relationship already exists"]
      else []
    let cycle ←
      if higherThere && lowerThere then
        pure (cycleProblems (← current).tables higher lower (← asked store))
      else pure []
    return missing ++ repeated ++ cycle

/-! ### Changes -/

/-- Notes what became of an edge. -/
def noteEdge (event : String) (details : Fields) : SessionM Unit :=
  note .info .hierarchy ("authz.hierarchy.edge." ++ event) details

/-- The details that name an edge. -/
def edgeDetails (higher lower store : Value) : Fields :=
  [("store_id", store), ("higher_role_id", higher), ("lower_role_id", lower)]

/-- Adds an edge.  It is shown with the values that are given. -/
def addEdge (cached : Bool) (higher lower store data isActive : Value) : SessionM Fields := do
  let problems ← edgeProblems higher lower store
  if !problems.isEmpty then
    noteEdge "rejected" (edgeDetails higher lower store ++ [("errors", Value.texts problems)])
    throw (.edge problems)
  else
    let flag ← newFlag isActive true
    let h ← reference higher
    let l ← reference lower
    let s ← reference store
    let tables := (← current).tables
    let row : EdgeRow := ⟨Table.edges.nextId tables, h, l, s, asData data, flag⟩
    let tables ← Table.edges.insert tables row
    setTables tables
    hierarchyChanged cached store
    noteEdge "created" (edgeDetails higher lower store)
    return row.toFields.insertAll (edgeDetails higher lower store ++ givenFields data isActive)

/-- Removes an edge.  The result says whether it was there. -/
def removeEdge (cached : Bool) (higher lower store : Value) : SessionM Bool := do
  match ← findEdge higher lower store with
  | none => return false
  | some row =>
    setTables (Table.edges.drop (← current).tables row.id)
    hierarchyChanged cached store
    noteEdge "removed" (edgeDetails higher lower store)
    return true

/-- Switches an edge on or off.  It is shown with the value that is given. -/
def setEdgeActive (cached : Bool) (higher lower store isActive : Value) : SessionM Fields := do
  match ← findEdge higher lower store with
  | none => throw .noEdge
  | some row =>
    if (Value.bool row.isActive).alike isActive then return row.toFields
    else
      let tables := (← current).tables
      let problems :=
        if isActive.isTruthy then cycleProblems tables higher lower (some row.store) else []
      if !problems.isEmpty then
        noteEdge "rejected" [("store_id", store), ("errors", Value.texts problems)]
        throw (.edge problems)
      else
        match ← flagOf isActive with
        | none => throw .conflict
        | some flag =>
          let row := { row with isActive := flag }
          setTables (Table.edges.replace tables row)
          hierarchyChanged cached store
          return Fields.insert row.toFields "is_active" isActive

/-! ### Questions -/

/-- The active edges of a store. -/
def storeEdges (store : Value) : SessionM (List EdgeRow) := do
  return (← asked store).elim [] (← current).tables.activeEdges

/-- The roles below a role in a store, down to the depth of the settings. -/
def lowerRoleIds (role store : Value) : SessionM (List Int) := do
  let g ← graph store
  if !role.isScalar then throw (.type none)
  else
    let depth := (← current).settings.hierarchyMaxDepth
    return role.whole?.elim [] fun role => g.descendants role (some depth)

/-- The roles below a role in a store, by name. -/
def lowerRoles (role store : Value) : SessionM (List NamedRow) := do
  let ids ← lowerRoleIds role store
  return (← current).tables.rolesWithIds ids

/-- Is the first role above the second in a store? -/
def isHigher (role other store : Value) : SessionM Bool := do
  let ids ← lowerRoleIds role store
  if !other.isScalar then throw (.type none)
  else return other.whole?.any ids.contains

mutual
/-- A tree of roles with their names and permissions. -/
def treeValue (tables : Tables) : RoleGraph.Tree Int → Value
  | .node role children =>
    let name := (Table.roles.get? tables role).map (·.name)
    .object [("role_id", .int role), ("name", Value.ofOption .text name),
      ("permissions", Value.texts (tables.permissionsOfRoles [role])),
      ("children", .list (treeValues tables children))]
/-- Trees of roles. -/
def treeValues (tables : Tables) : List (RoleGraph.Tree Int) → List Value
  | [] => []
  | t :: ts => treeValue tables t :: treeValues tables ts
end

/-- The trees below the roles of a store that nobody manages. -/
def hierarchyTree (store : Value) : SessionM (List Value) := do
  let g ← graph store
  return treeValues (← current).tables g.forest

end AccessControl.Session
