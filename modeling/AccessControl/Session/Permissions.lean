import AccessControl.Policy.Caller
import AccessControl.Session.Hierarchy

/-! # Roles and permissions in stores

In a store a user has the roles that are assigned there and every role below them.  The permissions
of the user in the store are those attached to these roles.  Both these permissions and whether a
user is assigned to all active stores may be remembered in the cache. -/

namespace AccessControl.Session

open Database

/-! ### Roles -/

/-- The roles that a user has in a store by active assignments. -/
def directRoleIds (user store : Value) : SessionM (List Int) := do
  match ← askedAll [user, store] with
  | some [u, s] => return (← current).tables.directRoles u s
  | _ => return []

/-- The roles assigned to a user in a store, by name. -/
def storeRoles (user store : Value) : SessionM (List NamedRow) := do
  let ids ← directRoleIds user store
  return (← current).tables.rolesWithIds ids

/-- The roles below some roles in a store. -/
def rolesBelow (store : Value) : List Int → SessionM (List Int)
  | [] => return []
  | role :: roles => do
    let below ← lowerRoleIds (.int role) store
    let others ← rolesBelow store roles
    return below ++ others

/-- The roles assigned to a user in a store, and the other roles below them. -/
def effectiveRoleIds (user store : Value) : SessionM (List Int × List Int) := do
  let direct ← directRoleIds user store
  let below ← rolesBelow store direct
  return (direct, ascendingInts (below.filter (!direct.contains ·)))

/-- A role of a user in a store, and whether it comes from below an assigned one. -/
structure EffectiveRole where
  role : Int
  name : String
  inherited : Bool
  deriving DecidableEq, Repr

/-- The roles of a user in a store, by name. -/
def effectiveRoles (user store : Value) : SessionM (List EffectiveRole) := do
  let (direct, inherited) ← effectiveRoleIds user store
  let rows := (← current).tables.rolesWithIds (direct ++ inherited)
  return rows.map fun r => ⟨r.id, r.name, inherited.contains r.id⟩

/-! ### Permissions -/

/-- The permissions of a user in a store, worked out from the tables. -/
def workOutPermissions (user store : Value) : SessionM (List String) := do
  let (direct, inherited) ← effectiveRoleIds user store
  return (← current).tables.permissionsOfRoles (direct ++ inherited)

/-- The permissions of a user in a store as the members of a set: what is remembered may be
anything. -/
def permissionMembers (cached : Bool) (user store : Value) : SessionM (List Value) := do
  if cached then
    let key ← (Cache.currentPermissionsKey user store : CacheM String)
    let ttl := (← current).settings.permissionsTtl.ttlSeconds
    let names ← Cache.getOrCompute key (some ttl) "effective_permissions" (do
      return Value.texts (← workOutPermissions user store))
    let members ← names.members
    return members
  else return (← workOutPermissions user store).map .text

/-- The permissions of a user in a store, remembered when there is a cache. -/
def effectivePermissions (cached : Bool) (user store : Value) : SessionM (List String) := do
  return Value.textsAmong (← permissionMembers cached user store)

/-- The permissions of a user in a store in ascending order. -/
def shownPermissions (cached : Bool) (user store : Value) : SessionM (List Value) := do
  let members ← permissionMembers cached user store
  let ordered ← Value.inOrder members
  return ordered

/-- Has the user a permission in a store? -/
def hasPermission (cached : Bool) (user permission store : Value) : SessionM Bool := do
  let members ← permissionMembers cached user store
  if permission.isScalar then return permission.isAmong members else throw (.type none)

/-! ### All stores -/

/-- Is the user assigned to every active store?  Where no store is active, every user is. -/
def workOutAllStores (user : Value) : SessionM Bool := do
  if (← current).tables.hasActiveStore then
    return (← asked user).any (← current).tables.coversActiveStores
  else return true

/-- Is the user assigned to every active store?  The answer is remembered when there is a cache. -/
def hasAllStores (cached : Bool) (user : Value) : SessionM Bool := do
  if cached then
    let key ← (Cache.currentAllStoresKey user : CacheM String)
    let ttl := (← current).settings.allStoresTtl.ttlSeconds
    let answer ← Cache.getOrCompute key (some ttl) "all_stores"
        (do return .bool (← workOutAllStores user))
    return answer.isTruthy
  else workOutAllStores user

/-! ### Standing -/

/-- Is some role below one of the roles in a store among the others? -/
def managesAny (store : Value) (others : List Int) : List Int → SessionM Bool
  | [] => return false
  | role :: roles => do
    let below ← lowerRoleIds (.int role) store
    if below.any others.contains then return true else managesAny store others roles

/-- May one user act on another in a store?  A role of the first has to be above a role of the
second. -/
def canAct (actor target store : Value) : SessionM Bool := do
  let (actorDirect, actorBelow) ← effectiveRoleIds actor store
  let (targetDirect, targetBelow) ← effectiveRoleIds target store
  let others := targetDirect ++ targetBelow
  if others.isEmpty then return false else managesAny store others (actorDirect ++ actorBelow)

/-! ### Callers -/

/-- The caller that a user is, with the abilities of the token. -/
def loadCaller (user abilities : Value) : SessionM Caller := do
  let tables := (← current).tables
  let id ← asked user
  let roles := (id.elim [] tables.globalRoles).map (·.name)
  let names ← Caller.readNames abilities
  return .ofNames user roles (id.elim [] tables.globalPermissions) names

end AccessControl.Session
