import AccessControl.Digest.Sha256
import AccessControl.Failure
import AccessControl.Order
import AccessControl.Value.Display
import AccessControl.Value.Json
import AccessControl.Value.Member

/-! # Keys of cached answers

Every key begins with the space of the cache and joins its parts with colons.  Keys of what is
derived from rules carry the version of the rule set, and keys of permissions in a store carry the
epoch of the store, so that a change makes the older entries unreachable at once.  What would make a
key long goes into a digest of its JSON text. -/

namespace AccessControl.Cache

/-! ### Parts -/

/-- A key of a space. -/
def keyOf (space : String) (parts : List String) : String := String.intercalate ":" (space :: parts)

/-- The digest of a value. -/
def digestOf (v : Value) : String := Digest.sha256Hex v.toSortedJson

/-- The part for a version. -/
def versionPart (version : Value) : String := "v" ++ version.display

/-! ### Keys -/

/-- The key of the version of the rule set. -/
def versionKey (space : String) : String := keyOf space ["ruleset", "version"]

/-- The key of the epoch of a store. -/
def epochKey (space : String) (store : Value) : String :=
  keyOf space ["store", store.display, "epoch"]

/-- The key of the rules for a service and a method. -/
def rulesKey (space : String) (version service method : Value) : String :=
  keyOf space ["rules", versionPart version, digestOf (.list [service, method])]

/-- The key of the permissions of a user in a store. -/
def permissionsKey (space : String) (user store : Value) (epoch : Int) : String :=
  keyOf space ["eff", user.display, store.display, "e" ++ Text.intText epoch]

/-- The key of whether a user is assigned to all stores. -/
def allStoresKey (space : String) (user : Value) : String :=
  keyOf space ["all-stores", user.display]

/-! ### Keys of decisions -/

/-- What a decision depends on, besides the rules and the tables. -/
structure DecisionFacts where
  rule : Value
  service : Value
  method : Value
  target : Value
  user : Value
  stores : List Value
  abilities : List Value
  roles : List Value
  permissions : List Value

namespace DecisionFacts

/-- The facts with typed parts.  Stores and names are sets. -/
def of (rule : Value) (service method target : String) (user : Value) (stores : List Int)
    (abilities roles permissions : List String) : DecisionFacts where
  rule := rule
  service := .text service
  method := .text method
  target := .text target
  user := user
  stores := (ascendingInts stores).map .int
  abilities := (ascendingTexts abilities).map .text
  roles := (ascendingTexts roles).map .text
  permissions := (ascendingTexts permissions).map .text

/-- The facts as an object. -/
def toValue (d : DecisionFacts) : Value :=
  .object [("rule", d.rule), ("roles", .list d.roles), ("permissions", .list d.permissions),
    ("service", d.service), ("method", d.method), ("target", d.target), ("user", d.user),
    ("stores", .list d.stores), ("abilities", .list d.abilities)]

/-! ### Facts of any values -/

/-- The names of the facts that have to be given. -/
def requiredNames : List String :=
  ["rule_id", "service", "method", "target", "user_id", "store_ids", "abilities"]

/-- The names of all facts. -/
def names : List String := requiredNames ++ ["roles", "permissions"]

/-- The facts in the fields of an object. -/
def read (fields : Fields) : Except Failure DecisionFacts := do
  let part (name : String) : Value := (fields.get? name).getD .null
  let members (name : String) : Except Failure (List Value) :=
    match fields.get? name with
    | some v => v.sortedMembers
    | none => .ok []
  if !fields.all (fun f => names.contains f.1) ||
    !requiredNames.all (fun n => (fields.get? n).isSome) then
    .error (.type none)
  else
    let roles ← members "roles"
    let permissions ← members "permissions"
    let stores ← members "store_ids"
    let abilities ← members "abilities"
    return ⟨part "rule_id", part "service", part "method", part "target", part "user_id", stores,
      abilities, roles, permissions⟩

end DecisionFacts

/-- The key of a decision. -/
def decisionKey (space : String) (version : Value) (facts : DecisionFacts) : String :=
  keyOf space ["decision", versionPart version, digestOf facts.toValue]

end AccessControl.Cache
