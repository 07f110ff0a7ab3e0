import AccessControl.Path.Stored
import AccessControl.Stores.Sources
import AccessControl.Value.Display

/-! # Rules

A rule is the snapshot of an active rule that decisions are made from: for which service and method
it speaks, the route or the paths it is bound to, and what it asks of the caller.  `Rule.toValue` is
the form that is cached, and `Rule.read` takes it back.  An entry of the cache may hold anything, so
a rule keeps its fields as they are, and what they mean is asked only when the rule is used. -/

namespace AccessControl

/-! ### Words in rules -/

/-- The word for any method. -/
def anyMethod : String := "ANY"

/-- The methods a rule can be bound to. -/
def methods : List String := ["GET", "POST", "PUT", "PATCH", "DELETE", anyMethod]

/-- How a rule treats stores. -/
inductive Scope where
  | none
  | perStore
  | allStores
  deriving DecidableEq, Repr

namespace Scope

/-- All scopes. -/
def all : List Scope := [none, perStore, allStores]

/-- The word for a scope in a rule. -/
def word : Scope → String
  | none => "none"
  | perStore => "scoped"
  | allStores => "all_stores"

/-- The words for all scopes. -/
def words : List String := all.map word

/-- The scope that a word stands for. -/
def read (s : String) : Option Scope := all.find? (·.word == s)

/-- The scope that a value stands for. -/
def ofValue (v : Value) : Option Scope := v.text?.bind read

/-- The word for a scope in a verdict. -/
def label : Scope → String
  | none => "none"
  | perStore => "scoped"
  | allStores => "all-stores"

end Scope

/-- How the answers for several stores are combined. -/
inductive Matching where
  | all
  | any
  deriving DecidableEq, Repr

namespace Matching

/-- The word for a combination in a rule. -/
def word : Matching → String
  | all => "all"
  | any => "any"

/-- The words for all combinations. -/
def words : List String := [word all, word any]

/-- The combination that a value stands for: all that is not the word for `any` asks for all. -/
def ofValue : Value → Matching
  | .text s => if s = word any then any else all
  | _ => all

end Matching

/-! ### Rules -/

/-- An active rule.  The lists of names and the sources are in their final form; the other fields
are kept as they are given. -/
structure Rule where
  id : Value
  service : Value
  method : Value
  priority : Value
  routeName : Value
  pattern : Value
  expression : Value
  scope : Value
  sources : Stores.Sources
  matching : Value
  allowsEmpty : Value
  rolesAny : List String
  permissionsAny : List String
  permissionsAll : List String
  bypassRoles : List String
  bypassPermissions : List String
  deriving BEq

namespace Rule

/-- Is the rule bound to a route? -/
def hasRoute (r : Rule) : Bool := r.routeName.isTruthy

/-- The route or else the pattern of a rule. -/
def target (r : Rule) : Value :=
  if r.hasRoute then r.routeName else if r.pattern.isTruthy then r.pattern else .text ""

/-- Is the rule bound to paths, and the path one of them? -/
def acceptsPath (r : Rule) (path : Value) : Except Failure Bool :=
  if r.hasRoute then .ok false else Path.storedMatches r.expression path

/-- The permissions that a denial names. -/
def required (r : Rule) : List String :=
  if r.permissionsAny.isEmpty then r.permissionsAll else r.permissionsAny

/-! ### Stored forms -/

/-- The texts of the values that are not blank, each once. -/
def namesOf (items : List Value) : List String :=
  Text.distinct ((items.map Value.display).filter fun name => !Text.isBlankText name)

/-- The names in a value; nothing at all holds no names. -/
def readNames (v : Value) : Except Failure (List String) :=
  if !v.isTruthy then .ok []
  else
    match v.elements with
    | some items => .ok (namesOf items)
    | none => .error (.type none)

/-- The sources in a value, and whether they are sound.  Sources that cannot be read name no
store. -/
def readSources (v : Value) : Except Failure (Stores.Sources × Bool) :=
  match Stores.Sources.read v with
  | .ok sources => .ok (sources, true)
  | .error (.type _) => .ok (Stores.Sources.none, false)
  | .error (.value _) => .ok (Stores.Sources.none, false)
  | .error e => .error e

/-- The rule as an object. -/
def toValue (r : Rule) : Value :=
  .object [("id", r.id), ("service", r.service), ("method", r.method), ("priority", r.priority),
    ("route_name", r.routeName), ("path_dsl", r.pattern), ("path_regex", r.expression),
    ("store_scope_mode", r.scope), ("store_id_sources", r.sources.toValue),
      ("store_match_policy", r.matching),
    ("store_allows_empty", r.allowsEmpty), ("roles_any", Value.texts r.rolesAny),
    ("permissions_any", Value.texts r.permissionsAny),
      ("permissions_all", Value.texts r.permissionsAll),
    ("store_all_access_roles_any", Value.texts r.bypassRoles),
    ("store_all_access_permissions_any", Value.texts r.bypassPermissions)]

/-- The fields that an object of a rule may have. -/
def fieldNames : List String :=
  ["id", "service", "method", "priority", "route_name", "path_dsl", "path_regex",
   "store_scope_mode", "store_id_sources", "store_match_policy", "store_allows_empty", "roles_any",
   "permissions_any", "permissions_all", "store_all_access_roles_any",
   "store_all_access_permissions_any"]

/-! ### Entries -/

/-- The name under which a value that is no text stands among the fields of an
entry: no field has it. -/
def nameless : String := ""

/-- The failure of a pair that has not two parts. -/
def pairFailure (i length : Nat) : Failure :=
  .value ("dictionary update sequence element #" ++ Text.natText i ++ " has length " ++
    Text.natText length ++
    "; 2 is required")

/-- The fields in pairs of a name and a value, counted from a number. -/
def pairedFields (fields : Fields) (i : Nat) : List Value → Except Failure Fields
  | [] => .ok fields
  | pair :: pairs =>
    match pair.elements with
    | none => .error (.type none)
    | some [.text name, value] => pairedFields (fields.insert name value) (i + 1) pairs
    | some [key, value] =>
      if key.isScalar then
        pairedFields (fields.insert nameless value) (i + 1) pairs
      else .error (.type none)
    | some parts => .error (pairFailure i parts.length)

/-- The fields of an entry: those of an object, or those in a list of pairs. -/
def entryFields : Value → Except Failure Fields
  | .object fields => .ok fields
  | v =>
    match v.elements with
    | some pairs => pairedFields [] 0 pairs
    | none => .error (.type none)

/-- An entry whose names and sources have been read. -/
structure Entry where
  fields : Fields
  id : Value
  sources : Stores.Sources
  /-- Could the sources be read? -/
  isSound : Bool
  rolesAny : List String
  permissionsAny : List String
  permissionsAll : List String
  bypassRoles : List String
  bypassPermissions : List String

/-- The names and the sources of an entry. -/
def Entry.read (data : Value) : Except Failure Entry := do
  let fields ← entryFields data
  let names (name : String) : Except Failure (List String) :=
    readNames ((fields.get? name).getD .null)
  let rolesAny ← names "roles_any"
  let permissionsAny ← names "permissions_any"
  let permissionsAll ← names "permissions_all"
  let bypassRoles ← names "store_all_access_roles_any"
  let bypassPermissions ← names "store_all_access_permissions_any"
  match fields.get? "id" with
  | none => .error (.missing "id")
  | some id =>
    let (sources, isSound) ← readSources ((fields.get? "store_id_sources").getD .null)
    return ⟨fields, id, sources, isSound, rolesAny, permissionsAny, permissionsAll, bypassRoles,
      bypassPermissions⟩

/-- The rule in an entry: it has a service and a method, and no fields that a rule has not. -/
def Entry.toRule (e : Entry) : Except Failure Rule :=
  let field (name : String) (absent : Value) : Value := (e.fields.get? name).getD absent
  match e.fields.get? "service", e.fields.get? "method" with
  | some service, some method =>
    if !e.fields.all (fieldNames.contains ·.1) then .error (.type none)
    else
      .ok {
        id := e.id
        service := service
        method := method
        priority := field "priority" (.int 0)
        routeName := field "route_name" .null
        pattern := field "path_dsl" .null
        expression := field "path_regex" .null
        scope := field "store_scope_mode" (.text Scope.none.word)
        sources := e.sources
        matching := field "store_match_policy" (.text Matching.all.word)
        allowsEmpty := field "store_allows_empty" (.bool false)
        rolesAny := e.rolesAny
        permissionsAny := e.permissionsAny
        permissionsAll := e.permissionsAll
        bypassRoles := e.bypassRoles
        bypassPermissions := e.bypassPermissions }
  | _, _ => .error (.type none)

/-- The rule that a value describes. -/
def read (data : Value) : Except Failure Rule := do (← Entry.read data).toRule

/-- The rule that an object describes; it gets the expression of its pattern when it brings none. -/
def readCompiled (data : Value) : Except Failure Rule :=
  match data with
  | .object fields =>
    if (Fields.get? fields "path_regex").isSome || !(data.field "path_dsl").isTruthy then read data
    else do
      let m ← Path.compileValue (data.field "path_dsl")
      read (.object
        (Fields.insert fields "path_regex" (Value.ofOption .text (m.map Path.Matcher.stored))))
  | _ => read data

end Rule
end AccessControl
