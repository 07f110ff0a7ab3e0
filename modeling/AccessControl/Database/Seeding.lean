import AccessControl.Database.Tables
import AccessControl.Value.Display

/-! # Seeding

Users, roles, permissions and stores are put into the tables by name.  A permission is created
where it is first named. -/

namespace AccessControl.Database.Tables

/-! ### Rows by name -/

/-- The number of the permission with a name, which is created unless it is there. -/
def ensurePermission (t : Tables) (name : Value) : Except Failure (Int × Tables) := do
  match (← askedText name).bind fun n => t.permissions.find? (·.name == n) with
  | some p => return (p.id, t)
  | none =>
    let (_, added) ← Table.permissions.insertColumns t [("name", name)]
    return (Table.permissions.nextId t, added)

/-- The address of a seeded user. -/
def addressOf (name : Value) : String := name.display ++ "@example.com"

/-- Adds a user.  The result is its number. -/
def addUser (t : Tables) (name : Value) : Except Failure (Int × Tables) := do
  let (_, added) ← Table.users.insertColumns t [("name", name), ("email", .text (addressOf name))]
  return (Table.users.nextId t, added)

/-- The name of a seeded store. -/
def storeName (code : Value) : Value := .text ("Store " ++ code.display)

/-- Adds a store.  The result is its number. -/
def addStore (t : Tables) (code name isActive : Value) : Except Failure (Int × Tables) := do
  let (_, added) ← Table.stores.insertColumns t [("code", code), ("name", name),
      ("is_active", isActive)]
  return (Table.stores.nextId t, added)

/-- Adds active stores that are named like their codes, one after the other. -/
def addStores (t : Tables) : List Value → Except Failure Tables
  | [] => .ok t
  | code :: codes => do addStores (← t.addStore code code .null).2 codes

/-! ### Links -/

/-- Adds a pair of numbers to pairs; a pair that is there is a conflict. -/
def addLink (pairs : List (Int × Int)) (a b : Int) : Except Failure (List (Int × Int)) :=
  if (a, b) ∈ pairs then .error .conflict else .ok (pairs ++ [(a, b)])

/-- Attaches a permission to a role. -/
def attach (t : Tables) (role name : Value) : Except Failure Tables := do
  let (permission, t) ← t.ensurePermission name
  let role ← reference role
  if !t.hasRole role then .error .conflict
  else return { t with rolePermissions := ← addLink t.rolePermissions role permission }

/-- Attaches permissions to a role. -/
def attachAll (t : Tables) (role : Int) : List Value → Except Failure Tables
  | [] => .ok t
  | name :: names => do attachAll (← t.attach (.int role) name) role names

/-- Adds a role with permissions.  The result is its number. -/
def addRole (t : Tables) (name : Value) (permissions : List Value) :
    Except Failure (Int × Tables) := do
  let id := Table.roles.nextId t
  let (_, t) ← Table.roles.insertColumns t [("name", name)]
  return (id, ← t.attachAll id permissions)

/-- Gives a user a global role. -/
def giveRole (t : Tables) (user role : Value) : Except Failure Tables := do
  let user ← reference user
  let role ← reference role
  if !t.hasUser user || !t.hasRole role then .error .conflict
  else return { t with userRoles := ← addLink t.userRoles user role }

/-- Gives a user a permission of its own. -/
def givePermission (t : Tables) (user name : Value) : Except Failure Tables := do
  let (permission, t) ← t.ensurePermission name
  let user ← reference user
  if !t.hasUser user then .error .conflict
  else return { t with userPermissions := ← addLink t.userPermissions user permission }

end AccessControl.Database.Tables
