import AccessControl.Rule.Definition
import AccessControl.Schema.Form

/-! # Forms for rules

The inputs by which rules are created and changed, and the forms in which stored rules and tried
patterns are shown.  A creation names every field, through the values that stand in for absent
ones.  A change names some of them, and a field that is named as null is changed to null.  Both
are read into a `RuleChange`. -/

namespace AccessControl

namespace RuleForm

open Schema

/-! ### Forms -/

/-- The lists of names in a rule. -/
def nameFields : List String :=
  ["roles_any", "permissions_any", "permissions_all", "store_all_access_roles_any",
    "store_all_access_permissions_any"]

/-- The form of the keys under which store ids are looked for. -/
def sources : Form := Stores.Bucket.all.map fun b => (textsField b.name).orNull

/-- The priority of a rule that is created without one. -/
def defaultPriority : Int := 100

/-- The form of a new rule. -/
def creation : Form :=
  [textField "service", (textField "method").standing (.text anyMethod),
   (textField "path_dsl").orNull,
    (textField "route_name").orNull] ++
  nameFields.map (fun name => (textsField name).orNull) ++
  [(textField "store_scope_mode").standing (.text Scope.none.word),
    (Form.nested "store_id_sources" sources).orNull,
    (textField "store_match_policy").standing (.text Matching.all.word),
    (boolField "store_allows_empty").standing (.bool false),
      (boolField "is_active").standing (.bool true),
    (intField "priority").standing (.int defaultPriority)]

/-- The form of a change: that of a new rule with null allowed everywhere. -/
def change : Form :=
  ([textField "service", textField "method", textField "path_dsl", textField "route_name"] ++
  nameFields.map textsField ++
  [textField "store_scope_mode", Form.nested "store_id_sources" sources,
   textField "store_match_policy",
    boolField "store_allows_empty", boolField "is_active", intField "priority"]).map Field.orNull

/-- The form of a stored rule, without its times. -/
def row : Form :=
  [intField "id", textField "service", textField "method", (textField "path_dsl").nullable,
    (textField "path_regex").nullable, (textField "route_name").nullable] ++
  nameFields.map (fun name => (textsField name).nullable) ++
  [textField "store_scope_mode", (objectField "store_id_sources").nullable,
   textField "store_match_policy",
    boolField "store_allows_empty", boolField "is_active", intField "priority"]

/-- The form of a stored rule. -/
def record : Form := row ++ [stampField "created_at", stampField "updated_at"]

/-- The form of a tried pattern. -/
def trial : Form :=
  [textField "path_pattern", (textField "path_regex").nullable, textField "test_path",
   boolField "matches",
    boolField "compiled", (textField "error").orNull]

end RuleForm

/-! ### Changes -/

/-- The keys for store ids as an input names them. -/
structure SourceKeys where
  path : Option (List String)
  query : Option (List String)
  body : Option (List String)
  deriving DecidableEq, Repr

/-- A field of a change: not named, or named with a value or null. -/
abbrev Named (α : Type) := Option (Option α)

/-- What an input sets in a rule. -/
structure RuleChange where
  service : Named String
  method : Named String
  pattern : Named String
  routeName : Named String
  rolesAny : Named (List String)
  permissionsAny : Named (List String)
  permissionsAll : Named (List String)
  bypassRoles : Named (List String)
  bypassPermissions : Named (List String)
  scope : Named String
  sources : Named SourceKeys
  matching : Named String
  allowsEmpty : Named Bool
  isActive : Named Bool
  priority : Named Int
  deriving DecidableEq, Repr

/-- The texts in a list. -/
def Value.textsIn : Value → Option (List String)
  | .list items => some (items.filterMap Value.text?)
  | _ => none

/-- The truth value of a value. -/
def Value.bool? : Value → Option Bool
  | .bool b => some b
  | _ => none

/-- The keys in an object that went through the form of sources. -/
def SourceKeys.ofValue : Value → Option SourceKeys
  | .object fields =>
    let keys (b : Stores.Bucket) : Option (List String) :=
      (Fields.get? fields b.name).bind Value.textsIn
    some ⟨keys .path, keys .query, keys .body⟩
  | _ => none

namespace RuleChange

/-- The change in fields that went through a form. -/
def ofFields (fields : Fields) : RuleChange :=
  let text (name : String) : Named String := (fields.get? name).map Value.text?
  let names (name : String) : Named (List String) := (fields.get? name).map Value.textsIn
  let flag (name : String) : Named Bool := (fields.get? name).map Value.bool?
  { service := text "service"
    method := text "method"
    pattern := text "path_dsl"
    routeName := text "route_name"
    rolesAny := names "roles_any"
    permissionsAny := names "permissions_any"
    permissionsAll := names "permissions_all"
    bypassRoles := names "store_all_access_roles_any"
    bypassPermissions := names "store_all_access_permissions_any"
    scope := text "store_scope_mode"
    sources := (fields.get? "store_id_sources").map SourceKeys.ofValue
    matching := text "store_match_policy"
    allowsEmpty := flag "store_allows_empty"
    isActive := flag "is_active"
    priority := (fields.get? "priority").map Value.int? }

/-- The change that creates a rule. -/
def readCreation (v : Value) : Except Failure RuleChange := ofFields <$> RuleForm.creation.read v

/-- The change that an input asks for: only the fields that it names. -/
def read (v : Value) : Except Failure RuleChange := do
  let values ← RuleForm.change.read v
  return ofFields (values.filter fun f => (v.fields?.getD []).any (·.1 == f.1))

/-- The names of the fields that are named. -/
def names (c : RuleChange) : List String :=
  [("service", c.service.isSome), ("method", c.method.isSome), ("path_dsl", c.pattern.isSome),
    ("route_name", c.routeName.isSome), ("roles_any", c.rolesAny.isSome),
    ("permissions_any", c.permissionsAny.isSome), ("permissions_all", c.permissionsAll.isSome),
    ("store_all_access_roles_any", c.bypassRoles.isSome),
    ("store_all_access_permissions_any", c.bypassPermissions.isSome),
      ("store_scope_mode", c.scope.isSome),
    ("store_id_sources", c.sources.isSome), ("store_match_policy", c.matching.isSome),
    ("store_allows_empty", c.allowsEmpty.isSome), ("is_active", c.isActive.isSome),
    ("priority", c.priority.isSome)].filterMap fun f => if f.2 then some f.1 else none

end RuleChange
end AccessControl
