import AccessControl.Database.Columns
import AccessControl.Rule.Definition

/-! # Rows

The rows of the tables: their columns, how they are made from what the columns hold, and how they
are shown.  A column that must hold a value and holds none is a conflict, and so is a text where the
number of a row is needed.  -/

namespace AccessControl.Database

/-- The name of the column for data of a row's own. -/
def dataName : String := "metadata_payload"

/-! ### Users, roles, permissions and stores -/

/-- A user. -/
structure UserRow where
  id : Int
  name : String
  email : String
  isActive : Bool
  deriving DecidableEq, Repr

/-- A role or a permission: something with a name of its own. -/
structure NamedRow where
  id : Int
  name : String
  description : Option String
  deriving DecidableEq, Repr

/-- A store. -/
structure StoreRow where
  id : Int
  code : String
  name : String
  data : Value
  isActive : Bool
  deriving Repr

namespace UserRow

/-- The columns of a user. -/
def columns : List Column :=
  [.required "name" .text, .required "email" .text, .usual "is_active" .flag (.bool true)]

/-- The user in stored columns. -/
def ofStored (id : Int) (stored : Fields) : Except Failure UserRow := do
  return ⟨id, ← textIn stored "name", ← textIn stored "email", ← flagIn stored "is_active"⟩

/-- The fields of a user. -/
def toFields (r : UserRow) : Fields :=
  [("id", .int r.id), ("name", .text r.name), ("email", .text r.email),
   ("is_active", .bool r.isActive)]

end UserRow

namespace NamedRow

/-- The columns of a role or permission. -/
def columns : List Column :=
  [.required "name" .text, .optional "description" .text]

/-- The role or permission in stored columns. -/
def ofStored (id : Int) (stored : Fields) : Except Failure NamedRow := do
  return ⟨id, ← textIn stored "name", textIn? stored "description"⟩

/-- The fields of a role or permission. -/
def toFields (r : NamedRow) : Fields :=
  [("id", .int r.id), ("name", .text r.name), ("description", Value.ofOption .text r.description)]

end NamedRow

namespace StoreRow

/-- The columns of a store. -/
def columns : List Column :=
  [.required "code" .text, .required "name" .text, .optional dataName .data,
    .usual "is_active" .flag (.bool true)]

/-- The store in stored columns. -/
def ofStored (id : Int) (stored : Fields) : Except Failure StoreRow := do
  return ⟨id, ← textIn stored "code", ← textIn stored "name", dataIn stored dataName,
    ← flagIn stored "is_active"⟩

/-- The fields of a store. -/
def toFields (r : StoreRow) : Fields :=
  [("id", .int r.id), ("code", .text r.code), ("name", .text r.name), (dataName, r.data),
    ("is_active", .bool r.isActive)]

end StoreRow

/-! ### Assignments and hierarchy edges -/

/-- A role that a user has in a store. -/
structure AssignmentRow where
  id : Int
  user : Int
  role : Int
  store : Int
  data : Value
  isActive : Bool
  deriving Repr

/-- In a store, one role manages another. -/
structure EdgeRow where
  id : Int
  higher : Int
  lower : Int
  store : Int
  data : Value
  isActive : Bool
  deriving Repr

namespace AssignmentRow

/-- The columns of an assignment. -/
def columns : List Column :=
  [.required "user_id" .number, .required "role_id" .number, .required "store_id" .number,
    .optional dataName .data, .usual "is_active" .flag (.bool true)]

/-- The assignment in stored columns. -/
def ofStored (id : Int) (stored : Fields) : Except Failure AssignmentRow := do
  return ⟨id, ← numberIn stored "user_id", ← numberIn stored "role_id",
    ← numberIn stored "store_id", dataIn stored dataName, ← flagIn stored "is_active"⟩

/-- The fields of an assignment. -/
def toFields (r : AssignmentRow) : Fields :=
  [("id", .int r.id), ("user_id", .int r.user), ("role_id", .int r.role),
   ("store_id", .int r.store),
    (dataName, r.data), ("is_active", .bool r.isActive)]

/-- Is it the role of the user in the store? -/
def links (r : AssignmentRow) (user role store : Int) : Bool :=
  r.user == user && r.role == role && r.store == store

end AssignmentRow

namespace EdgeRow

/-- The columns of an edge. -/
def columns : List Column :=
  [.required "higher_role_id" .number, .required "lower_role_id" .number,
   .required "store_id" .number, .optional dataName .data, .usual "is_active" .flag (.bool true)]

/-- The edge in stored columns. -/
def ofStored (id : Int) (stored : Fields) : Except Failure EdgeRow := do
  return ⟨id, ← numberIn stored "higher_role_id", ← numberIn stored "lower_role_id",
    ← numberIn stored "store_id", dataIn stored dataName, ← flagIn stored "is_active"⟩

/-- The fields of an edge. -/
def toFields (r : EdgeRow) : Fields :=
  [("id", .int r.id), ("higher_role_id", .int r.higher), ("lower_role_id", .int r.lower),
    ("store_id", .int r.store), (dataName, r.data), ("is_active", .bool r.isActive)]

/-- Is it the edge between the roles in the store? -/
def links (r : EdgeRow) (higher lower store : Int) : Bool :=
  r.higher == higher && r.lower == lower && r.store == store

end EdgeRow

/-! ### Rules -/

/-- A stored rule, active or not.  The lists of names and the sources are kept as they were
stored, sound or not. -/
structure RuleRow where
  id : Int
  service : String
  method : String
  pattern : Option String
  expression : Option String
  routeName : Option String
  rolesAny : Value
  permissionsAny : Value
  permissionsAll : Value
  scope : String
  sources : Value
  matching : String
  allowsEmpty : Bool
  bypassRoles : Value
  bypassPermissions : Value
  isActive : Bool
  /-- A number, but rows from elsewhere may have a text. -/
  priority : Value
  deriving Repr

namespace RuleRow

/-- The columns of a rule. -/
def columns : List Column :=
  [.required "service" .text, .usual "method" .text (.text anyMethod), .optional "path_dsl" .text,
    .optional "path_regex" .text, .optional "route_name" .text, .optional "roles_any" .data,
    .optional "permissions_any" .data, .optional "permissions_all" .data,
    .usual "store_scope_mode" .text (.text Scope.none.word), .optional "store_id_sources" .data,
    .usual "store_match_policy" .text (.text Matching.all.word),
      .usual "store_allows_empty" .flag (.bool false),
    .optional "store_all_access_roles_any" .data,
      .optional "store_all_access_permissions_any" .data,
    .usual "is_active" .flag (.bool true), .usual "priority" .number (.int 0)]

/-- The rule in stored columns. -/
def ofStored (id : Int) (stored : Fields) : Except Failure RuleRow := do
  return {
    id := id
    service := ← textIn stored "service"
    method := ← textIn stored "method"
    pattern := textIn? stored "path_dsl"
    expression := textIn? stored "path_regex"
    routeName := textIn? stored "route_name"
    rolesAny := dataIn stored "roles_any"
    permissionsAny := dataIn stored "permissions_any"
    permissionsAll := dataIn stored "permissions_all"
    scope := ← textIn stored "store_scope_mode"
    sources := dataIn stored "store_id_sources"
    matching := ← textIn stored "store_match_policy"
    allowsEmpty := ← flagIn stored "store_allows_empty"
    bypassRoles := dataIn stored "store_all_access_roles_any"
    bypassPermissions := dataIn stored "store_all_access_permissions_any"
    isActive := ← flagIn stored "is_active"
    priority := ← valueIn stored "priority" }

/-- The fields of a rule. -/
def toFields (r : RuleRow) : Fields :=
  [("id", .int r.id), ("service", .text r.service), ("method", .text r.method),
    ("path_dsl", Value.ofOption .text r.pattern), ("path_regex", Value.ofOption .text r.expression),
    ("route_name", Value.ofOption .text r.routeName), ("roles_any", r.rolesAny),
    ("permissions_any", r.permissionsAny), ("permissions_all", r.permissionsAll),
    ("store_scope_mode", .text r.scope), ("store_id_sources", r.sources),
    ("store_match_policy", .text r.matching), ("store_allows_empty", .bool r.allowsEmpty),
    ("store_all_access_roles_any", r.bypassRoles),
    ("store_all_access_permissions_any", r.bypassPermissions), ("is_active", .bool r.isActive),
    ("priority", r.priority)]

/-- The pattern of a rule, or else its route. -/
def boundTo (r : RuleRow) : Option String :=
  match r.pattern.filter (· != "") with
  | some pattern => some pattern
  | none => r.routeName

/-- A text that is not empty, else null. -/
def givenText (column : Option String) : Value := Value.ofOption .text (column.filter (· != ""))

/-- The snapshot that decisions are made from, with the sources that were read. -/
def toRule (r : RuleRow) (sources : Stores.Sources) : Except Failure Rule := do
  let rolesAny ← Rule.readNames r.rolesAny
  let permissionsAny ← Rule.readNames r.permissionsAny
  let permissionsAll ← Rule.readNames r.permissionsAll
  let bypassRoles ← Rule.readNames r.bypassRoles
  let bypassPermissions ← Rule.readNames r.bypassPermissions
  return {
    id := .int r.id
    service := .text r.service
    method := .text r.method
    priority := r.priority
    routeName := givenText r.routeName
    pattern := givenText r.pattern
    expression := givenText r.expression
    scope := .text r.scope
    sources := sources
    matching := .text r.matching
    allowsEmpty := .bool r.allowsEmpty
    rolesAny := rolesAny
    permissionsAny := permissionsAny
    permissionsAll := permissionsAll
    bypassRoles := bypassRoles
    bypassPermissions := bypassPermissions }

end RuleRow
end AccessControl.Database
