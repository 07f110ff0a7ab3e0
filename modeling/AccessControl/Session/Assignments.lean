import AccessControl.Assignment.Forms
import AccessControl.Session.State

/-! # The assignments of a session

Roles are assigned to users in stores, one by one or several together, and removed and switched.
Several assignments are made all or none.  Every change forgets what was remembered of the user in
the store, and whether the user is assigned to all stores; a session without a cache of its own for
assignments leaves both alone. -/

namespace AccessControl.Session

open Database

/-! ### Checks -/

/-- The problem of an assignment that is there already. -/
def repeatedAssignment : String := "User already has this role in this store"

/-- The assignment of a role to a user in a store, active or not. -/
def findAssignment (user role store : Value) : SessionM (Option AssignmentRow) := do
  match ← askedAll [user, role, store] with
  | some [u, r, s] => return (← current).tables.assignment? u r s
  | _ => return none

/-- All problems of an assignment that is to be made. -/
def assignmentProblems (user role store : Value) : SessionM (List String) := do
  let userThere ← exists? Tables.hasUser user
  let roleThere ← exists? Tables.hasRole role
  let storeThere ← exists? Tables.hasStore store
  let missing :=
    (if userThere then [] else ["User does not exist"]) ++
      (if roleThere then [] else ["Role does not exist"]) ++
    (if storeThere then [] else ["Store does not exist"])
  if !missing.isEmpty then return missing
  else if (← findAssignment user role store).isSome then return [repeatedAssignment]
  else return []

/-- Forgets what was remembered of a user in a store. -/
def forgetUser (cached : Bool) (user store : Value) : SessionM Unit :=
  if cached then (Cache.invalidateUserStore user store : CacheM Unit) else return ()

/-- The details that name an assignment. -/
def assignmentDetails (user role store : Value) : Fields :=
  [("user_id", user), ("store_id", store), ("role_id", role)]

/-! ### Changes -/

/-- Writes an assignment that was checked before; another writer may still have come between.  It is
shown with the values that are given. -/
def writeAssignment (cached : Bool) (user role store data isActive : Value) : SessionM Fields := do
  let tables := (← current).tables
  let flag ← newFlag isActive true
  let numbers ← askedAll [user, role, store]
  let written : Option (AssignmentRow × Tables) :=
    match numbers with
    | some [u, r, s] =>
      let row : AssignmentRow := ⟨Table.assignments.nextId tables, u, r, s, asData data, flag⟩
      (Table.assignments.insert tables row).toOption.map fun tables => (row, tables)
    | _ => none
  match written with
  | none =>
    note .debug .assignments "authz.assignments.assign.conflict" (assignmentDetails user role store)
    throw (.assignment [repeatedAssignment])
  | some (row, tables) =>
    setTables tables
    forgetUser cached user store
    note .info .assignments "authz.assignments.assign.success" (assignmentDetails user role store)
    return row.toFields.insertAll (assignmentDetails user role store ++ givenFields data isActive)

/-- Assigns a role to a user in a store. -/
def assign (cached : Bool) (user role store data isActive : Value) : SessionM Fields := do
  let problems ← assignmentProblems user role store
  if problems.isEmpty then writeAssignment cached user role store data isActive
  else throw (.assignment problems)

/-- Makes a grant. -/
def assignGrant (cached : Bool) (user : Value) (g : Grant) : SessionM Fields :=
  assign cached user (.int g.role) (.int g.store) g.data (.bool g.isActive)

/-- The problems of several grants from a position on, after some pairs of role and store. -/
def grantProblems (user : Value) : Nat → List (Int × Int) → List Grant → SessionM (List String)
  | _, _, [] => return []
  | i, seen, g :: gs => do
    let label : String := "assignments[" ++ Text.natText i ++ "]: "
    if seen.contains (g.role, g.store) then
      return (label ++ "duplicate role/store pair") :: (← grantProblems user (i + 1) seen gs)
    else
      let problems ← assignmentProblems user (.int g.role) (.int g.store)
      return problems.map (label ++ ·) ++
        (← grantProblems user (i + 1) ((g.role, g.store) :: seen) gs)

/-- Makes several grants, one after the other. -/
def assignEach (cached : Bool) (user : Value) : List Grant → SessionM (List Fields)
  | [] => return []
  | g :: gs => do
    let row ← assignGrant cached user g
    let rows ← assignEach cached user gs
    return row :: rows

/-- Makes several grants to a user, or none when there is a problem with any of them. -/
def assignAll (cached : Bool) (user : Value) (grants : List Grant) : SessionM (List Fields) := do
  let problems ← grantProblems user 0 [] grants
  if problems.isEmpty then assignEach cached user grants else throw (.assignment problems)

/-- Removes an assignment.  The result says whether it was there. -/
def removeAssignment (cached : Bool) (user role store : Value) : SessionM Bool := do
  match ← findAssignment user role store with
  | none => return false
  | some row =>
    setTables (Table.assignments.drop (← current).tables row.id)
    forgetUser cached user store
    note .info .assignments "authz.assignments.remove.success" (assignmentDetails user role store)
    return true

/-- Switches an assignment on or off.  The result says whether it was there. -/
def toggleAssignment (cached : Bool) (user role store : Value) : SessionM Bool := do
  match ← findAssignment user role store with
  | none => return false
  | some row =>
    setTables (Table.assignments.replace (← current).tables { row with isActive := !row.isActive })
    forgetUser cached user store
    return true

/-! ### Questions -/

/-- The number of an optional condition: `none` when no row meets it, and no condition for null. -/
def condition (v : Value) : SessionM (Option (Option Int)) := do
  if v.isNull then return some none
  else return (← asked v).map some

/-- The active assignments of a user, or those in one store. -/
def userAssignments (user store : Value) : SessionM (List AssignmentRow) := do
  let user ← asked user
  let store ← condition store
  match user, store with
  | some u, some s => return (← current).tables.assignmentsOfUser u s
  | _, _ => return []

/-- The active assignments in a store, or those of one role. -/
def storeAssignments (store role : Value) : SessionM (List AssignmentRow) := do
  let store ← asked store
  let role ← condition role
  match store, role with
  | some s, some r => return (← current).tables.assignmentsInStore s r
  | _, _ => return []

end AccessControl.Session
