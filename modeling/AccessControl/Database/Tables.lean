import AccessControl.Database.Rows

/-! # Tables

All rows of the database.  The rows of a table stand in the order of their numbers, and a new row
takes the number after the last one.  A table says which rows cannot stand side by side, and which
other rows a row refers to; a row that breaks either is a conflict.  When a row is removed, the rows
that refer to it go with it. -/

namespace AccessControl.Database

/-- The contents of the database. -/
structure Tables where
  users : List UserRow
  roles : List NamedRow
  permissions : List NamedRow
  stores : List StoreRow
  /-- Roles and the permissions attached to them. -/
  rolePermissions : List (Int × Int)
  /-- Users and their global roles. -/
  userRoles : List (Int × Int)
  /-- Users and their own permissions. -/
  userPermissions : List (Int × Int)
  assignments : List AssignmentRow
  edges : List EdgeRow
  rules : List RuleRow
  deriving Repr

namespace Tables

/-- The database without rows. -/
def empty : Tables := ⟨[], [], [], [], [], [], [], [], [], []⟩

/-! ### References -/

/-- Is there a user with the number? -/
def hasUser (t : Tables) (id : Int) : Bool := t.users.any (·.id == id)

/-- Is there a role with the number? -/
def hasRole (t : Tables) (id : Int) : Bool := t.roles.any (·.id == id)

/-- Is there a permission with the number? -/
def hasPermission (t : Tables) (id : Int) : Bool := t.permissions.any (·.id == id)

/-- Is there a store with the number? -/
def hasStore (t : Tables) (id : Int) : Bool := t.stores.any (·.id == id)

/-- Does a row refer to the user with a number? -/
def refersToUser (t : Tables) (id : Int) : Bool :=
  t.userRoles.any (·.1 == id) || t.userPermissions.any (·.1 == id) ||
    t.assignments.any (·.user == id)

/-- Does a row refer to the role with a number? -/
def refersToRole (t : Tables) (id : Int) : Bool :=
  t.rolePermissions.any (·.1 == id) || t.userRoles.any (·.2 == id) ||
    t.assignments.any (·.role == id) ||
    t.edges.any fun e => e.higher == id || e.lower == id

/-- Does a row refer to the permission with a number? -/
def refersToPermission (t : Tables) (id : Int) : Bool :=
  t.rolePermissions.any (·.2 == id) || t.userPermissions.any (·.2 == id)

/-- Does a row refer to the store with a number? -/
def refersToStore (t : Tables) (id : Int) : Bool :=
  t.assignments.any (·.store == id) || t.edges.any (·.store == id)

/-! ### Removal -/

/-- The database without a user and all that refers to it. -/
def dropUser (t : Tables) (id : Int) : Tables :=
  { t with
    users := t.users.filter (·.id != id)
    userRoles := t.userRoles.filter (·.1 != id)
    userPermissions := t.userPermissions.filter (·.1 != id)
    assignments := t.assignments.filter (·.user != id) }

/-- The database without a role and all that refers to it. -/
def dropRole (t : Tables) (id : Int) : Tables :=
  { t with
    roles := t.roles.filter (·.id != id)
    rolePermissions := t.rolePermissions.filter (·.1 != id)
    userRoles := t.userRoles.filter (·.2 != id)
    assignments := t.assignments.filter (·.role != id)
    edges := t.edges.filter fun e => e.higher != id && e.lower != id }

/-- The database without a permission and all that refers to it. -/
def dropPermission (t : Tables) (id : Int) : Tables :=
  { t with
    permissions := t.permissions.filter (·.id != id)
    rolePermissions := t.rolePermissions.filter (·.2 != id)
    userPermissions := t.userPermissions.filter (·.2 != id) }

/-- The database without a store and all that refers to it. -/
def dropStore (t : Tables) (id : Int) : Tables :=
  { t with
    stores := t.stores.filter (·.id != id)
    assignments := t.assignments.filter (·.store != id)
    edges := t.edges.filter (·.store != id) }

end Tables

/-! ### Kinds of tables -/

/-- A table of rows with numbers. -/
structure Table (α : Type) where
  /-- The rows of the table. -/
  rows : Tables → List α
  /-- The database with other rows in the table. -/
  withRows : Tables → List α → Tables
  /-- The number of a row. -/
  id : α → Int
  /-- The columns of the table, its number apart. -/
  columns : List Column
  /-- The row in stored columns. -/
  ofStored : Int → Fields → Except Failure α
  /-- The fields of a row. -/
  toFields : α → Fields
  /-- Can two rows not stand side by side? -/
  clash : α → α → Bool
  /-- Are the rows there that a row refers to? -/
  grounded : Tables → α → Bool
  /-- Does some row of another table refer to the row with a number? -/
  referenced : Tables → Int → Bool
  /-- The database without a row and all that refers to it. -/
  drop : Tables → Int → Tables

namespace Table

/-- The users: no two have one address. -/
def users : Table UserRow where
  rows := Tables.users
  withRows t rows := { t with users := rows }
  id := UserRow.id
  columns := UserRow.columns
  ofStored := UserRow.ofStored
  toFields := UserRow.toFields
  clash a b := a.email == b.email
  grounded _ _ := true
  referenced := Tables.refersToUser
  drop := Tables.dropUser

/-- The roles: no two have one name. -/
def roles : Table NamedRow where
  rows := Tables.roles
  withRows t rows := { t with roles := rows }
  id := NamedRow.id
  columns := NamedRow.columns
  ofStored := NamedRow.ofStored
  toFields := NamedRow.toFields
  clash a b := a.name == b.name
  grounded _ _ := true
  referenced := Tables.refersToRole
  drop := Tables.dropRole

/-- The permissions: no two have one name. -/
def permissions : Table NamedRow where
  rows := Tables.permissions
  withRows t rows := { t with permissions := rows }
  id := NamedRow.id
  columns := NamedRow.columns
  ofStored := NamedRow.ofStored
  toFields := NamedRow.toFields
  clash a b := a.name == b.name
  grounded _ _ := true
  referenced := Tables.refersToPermission
  drop := Tables.dropPermission

/-- The stores: no two have one code or one name. -/
def stores : Table StoreRow where
  rows := Tables.stores
  withRows t rows := { t with stores := rows }
  id := StoreRow.id
  columns := StoreRow.columns
  ofStored := StoreRow.ofStored
  toFields := StoreRow.toFields
  clash a b := a.code == b.code || a.name == b.name
  grounded _ _ := true
  referenced := Tables.refersToStore
  drop := Tables.dropStore

/-- The assignments: a user has a role in a store once. -/
def assignments : Table AssignmentRow where
  rows := Tables.assignments
  withRows t rows := { t with assignments := rows }
  id := AssignmentRow.id
  columns := AssignmentRow.columns
  ofStored := AssignmentRow.ofStored
  toFields := AssignmentRow.toFields
  clash a b := a.links b.user b.role b.store
  grounded t r := t.hasUser r.user && t.hasRole r.role && t.hasStore r.store
  referenced := fun _ _ => false
  drop t id := { t with assignments := t.assignments.filter (·.id != id) }

/-- The hierarchy edges: between two roles in a store there is one at most. -/
def edges : Table EdgeRow where
  rows := Tables.edges
  withRows t rows := { t with edges := rows }
  id := EdgeRow.id
  columns := EdgeRow.columns
  ofStored := EdgeRow.ofStored
  toFields := EdgeRow.toFields
  clash a b := a.links b.higher b.lower b.store
  grounded t r := t.hasRole r.higher && t.hasRole r.lower && t.hasStore r.store
  referenced := fun _ _ => false
  drop t id := { t with edges := t.edges.filter (·.id != id) }

/-- The rules. -/
def rules : Table RuleRow where
  rows := Tables.rules
  withRows t rows := { t with rules := rows }
  id := RuleRow.id
  columns := RuleRow.columns
  ofStored := RuleRow.ofStored
  toFields := RuleRow.toFields
  clash _ _ := false
  grounded _ _ := true
  referenced := fun _ _ => false
  drop t id := { t with rules := t.rules.filter (·.id != id) }

variable {α : Type} (table : Table α)

/-! ### Reading and writing rows -/

/-- The row with a number. -/
def get? (t : Tables) (id : Int) : Option α := (table.rows t).find? (table.id · == id)

/-- The number for a new row. -/
def nextId (t : Tables) : Int := ((table.rows t).getLast?.map (table.id · + 1)).getD 1

/-- Puts a row before the first one with a greater number. -/
def place (row : α) : List α → List α
  | [] => [row]
  | r :: rs => if table.id row < table.id r then row :: r :: rs else r :: place row rs

/-- May the row stand beside the other rows? -/
def admits (t : Tables) (others : List α) (row : α) : Bool :=
  !(others.any fun r => table.id r == table.id row || table.clash r row) && table.grounded t row

/-- Adds a row. -/
def insert (t : Tables) (row : α) : Except Failure Tables :=
  if table.admits t (table.rows t) row then .ok (table.withRows t (table.place row (table.rows t)))
  else .error .conflict

/-- Puts a row in the place of the one with its number. -/
def replace (t : Tables) (row : α) : Tables :=
  table.withRows t ((table.rows t).map fun r => if table.id r == table.id row then row else r)

/-! ### Rows by columns -/

/-- The number of a row among the columns. -/
def idColumn : Column := .optional "id" .number

/-- All columns of the table. -/
def allColumns : List Column := idColumn :: table.columns ++ Column.times

/-- The number in a stored column; a text or a fraction is none. -/
def storedId (stored : Fields) : Except Failure Int := numberIn stored idColumn.name

/-- A name that says nothing about a row: the tables have it for themselves. -/
def ownName : String := "metadata"

/-- Is there a column of the name? -/
def hasColumn (name : String) : Bool := table.allColumns.any (·.name == name)

/-- Adds a row that is given by columns.  The result is its number, as it is given. -/
def insertColumns (t : Tables) (given : Fields) : Except Failure (Value × Tables) := do
  if !given.all fun f => f.1 == ownName || table.hasColumn f.1 then .error (.type none)
  else
    let stored ← Column.storeAll
        (Column.filled (idColumn :: table.columns) given ++ Column.named Column.times given)
    let (shown, id) ←
      if (dataIn stored idColumn.name).isNull then
        pure (Value.int (table.nextId t), table.nextId t)
      else
        pure ((given.get? idColumn.name).getD .null, ← storedId stored)
    let row ← table.ofStored id stored
    let t ← table.insert t row
    return (shown, t)

/-- Puts a row in the place of the one with a number, which it need not keep. -/
def move (t : Tables) (id : Int) (row : α) : Except Failure Tables :=
  let others := (table.rows t).filter (table.id · != id)
  if table.id row != id && table.referenced t id then .error .conflict
  else if table.admits t others row then .ok (table.withRows t (table.place row others))
  else .error .conflict

/-- Sets columns of the row with a number, if there is one. -/
def setColumns (t : Tables) (key : Value) (given : Fields) : Except Failure Tables := do
  if given.any (·.1 == ownName) then .error .shape
  else if !given.all (table.hasColumn ·.1) then .error .noColumn
  else
    let stored ← Column.storeAll (Column.named table.allColumns given)
    match (← asked key).bind (table.get? t) with
    | none => return t
    | some row =>
      if stored.any fun f => Column.times.any (·.name == f.1) then .error .conflict
      else
        let stored := Fields.insertAll (table.toFields row) stored
        let changed ← table.ofStored (← storedId stored) stored
        table.move t (table.id row) changed

/-- Removes the row with a number, if there is one.  The result counts it. -/
def remove (t : Tables) (key : Value) : Except Failure (Int × Tables) := do
  match ← asked key with
  | none => return (0, t)
  | some id => return if (table.get? t id).isSome then (1, table.drop t id) else (0, t)

end Table

/-! ### Tables by name -/

/-- The names of all tables. -/
def tableNames : List String :=
  ["users", "permissions", "roles", "role_permissions", "user_roles", "user_permissions", "stores",
    "user_role_store", "role_hierarchy", "auth_rules"]

/-- The named tables whose rows have numbers. -/
inductive NumberedTable where
  | users
  | roles
  | permissions
  | stores
  | assignments
  | edges
  | rules
  deriving DecidableEq, Repr

namespace NumberedTable

/-- The table with a name. -/
def ofName (name : String) : Option NumberedTable :=
  [("users", users), ("roles", roles), ("permissions", permissions), ("stores", stores),
    ("user_role_store", assignments), ("role_hierarchy", edges), ("auth_rules", rules)].lookup name

/-- Adds a row that is given by columns.  The result is its number, as it is given. -/
def insertColumns (n : NumberedTable) (t : Tables) (columns : Fields) :
    Except Failure (Value × Tables) :=
  match n with
  | users => Table.users.insertColumns t columns
  | roles => Table.roles.insertColumns t columns
  | permissions => Table.permissions.insertColumns t columns
  | stores => Table.stores.insertColumns t columns
  | assignments => Table.assignments.insertColumns t columns
  | edges => Table.edges.insertColumns t columns
  | rules => Table.rules.insertColumns t columns

/-- Sets columns of the row with a number. -/
def setColumns (n : NumberedTable) (t : Tables) (id : Value) (columns : Fields) :
    Except Failure Tables :=
  match n with
  | users => Table.users.setColumns t id columns
  | roles => Table.roles.setColumns t id columns
  | permissions => Table.permissions.setColumns t id columns
  | stores => Table.stores.setColumns t id columns
  | assignments => Table.assignments.setColumns t id columns
  | edges => Table.edges.setColumns t id columns
  | rules => Table.rules.setColumns t id columns

/-- Removes the row with a number.  The result counts it. -/
def remove (n : NumberedTable) (t : Tables) (id : Value) : Except Failure (Int × Tables) :=
  match n with
  | users => Table.users.remove t id
  | roles => Table.roles.remove t id
  | permissions => Table.permissions.remove t id
  | stores => Table.stores.remove t id
  | assignments => Table.assignments.remove t id
  | edges => Table.edges.remove t id
  | rules => Table.rules.remove t id

end NumberedTable
end AccessControl.Database
