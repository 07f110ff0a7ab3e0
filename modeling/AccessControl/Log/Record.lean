import AccessControl.Value.Basic

/-! # Log records

What the services note while they work: a level, a channel, an event and named details. -/

namespace AccessControl.Log

/-- How serious a record is. -/
inductive Level where
  | debug
  | info
  | warning
  deriving DecidableEq, Repr

/-- The name of a level. -/
def Level.name : Level → String
  | debug => "DEBUG"
  | info => "INFO"
  | warning => "WARNING"

/-- Which part of the program speaks. -/
inductive Channel where
  | backend
  | cache
  | matcher
  | selection
  | ruleStore
  | evaluation
  | hierarchy
  | assignments
  | authorization
  deriving DecidableEq, Repr

/-- The name of a channel. -/
def Channel.name : Channel → String
  | backend => "authz_core.cache.backends"
  | cache => "authz_core.cache.decisions"
  | matcher => "authz_core.features.rules.pathdsl"
  | selection => "authz_core.features.rules.selection"
  | ruleStore => "authz_core.features.rules.service"
  | evaluation => "authz_core.features.policy.evaluator"
  | hierarchy => "authz_core.features.hierarchy.service"
  | assignments => "authz_core.features.assignments.service"
  | authorization => "authz_core.features.authorization.service"

/-- One note. -/
structure Record where
  level : Level
  channel : Channel
  event : String
  details : Fields

/-- The record as a list of level, channel, event and details. -/
def Record.toValue (r : Record) : Value :=
  .list [.text r.level.name, .text r.channel.name, .text r.event, .object r.details]


/-! ### Details -/

/-- The details that come first, and are left out when they are null. -/
def leadingNames : List String := ["service", "rule_id", "store_id", "user_id"]

/-- A leading detail among fields. -/
def leading (fields : Fields) (name : String) : Option (String × Value) :=
  match fields.get? name with
  | some .null => none
  | some v => some (name, v)
  | none => none

/-- The details in order: the leading ones that are not null, and then the others as they are
given. -/
def context (fields : Fields) : Fields :=
  leadingNames.filterMap (leading fields) ++ fields.filter fun f => !leadingNames.contains f.1

end AccessControl.Log
