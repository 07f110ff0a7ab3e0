import AccessControl.Numeric.Duration
import AccessControl.Value.Basic

/-! # Settings

What can be configured: logging, the policy, the cache and the database.  `Settings.standard` holds
while nothing is configured. -/

namespace AccessControl

/-- How log lines are written. -/
inductive LogFormat where
  | console
  | json
  deriving DecidableEq, Repr

/-- The word for a format of log lines. -/
def LogFormat.word : LogFormat → String
  | console => "console"
  | json => "json"

/-- Which kind of back end the cache uses. -/
inductive CacheKind where
  | memory
  | redis
  deriving DecidableEq, Repr

/-- The word for a kind of back end. -/
def CacheKind.word : CacheKind → String
  | memory => "memory"
  | redis => "redis"

/-- The configuration of the program. -/
structure Settings where
  loggingLevel : String
  logFormat : LogFormat
  allowIfNoRule : Bool
  superRoles : List String
  wildcardAbility : String
  hierarchyMaxDepth : Int
  cacheKind : CacheKind
  cacheSpace : String
  decisionTtl : Duration
  rulesetTtl : Duration
  permissionsTtl : Duration
  allStoresTtl : Duration
  redisUrl : String
  redisTimeout : Duration
  databaseUrl : String
  databaseEcho : Bool
  poolSize : Int
  maxOverflow : Int
  poolTimeout : Int
  deriving DecidableEq, Repr

namespace Settings

/-- The roles that may do everything, while none are configured. -/
def standardSuperRoles : List String := ["super-admin"]

/-- The settings while nothing is configured. -/
def standard : Settings where
  loggingLevel := "INFO"
  logFormat := .console
  allowIfNoRule := false
  superRoles := standardSuperRoles
  wildcardAbility := "*"
  hierarchyMaxDepth := 16
  cacheKind := .memory
  cacheSpace := "authz"
  decisionTtl := .seconds 20
  rulesetTtl := .seconds 60
  permissionsTtl := .seconds 30
  allStoresTtl := .seconds 30
  redisUrl := "redis://localhost:6379/0"
  redisTimeout := ⟨250000⟩
  databaseUrl := "sqlite:///./data/authz.sqlite"
  databaseEcho := false
  poolSize := 5
  maxOverflow := 10
  poolTimeout := 30

/-- A duration in microseconds. -/
def micros (d : Duration) : Value := .int d.micros

/-- The settings as an object; durations are in microseconds. -/
def toFields (s : Settings) : Fields :=
  [("logging_level", .text s.loggingLevel), ("log_format", .text s.logFormat.word),
    ("allow_if_no_rule", .bool s.allowIfNoRule), ("super_roles", Value.texts s.superRoles),
    ("wildcard_ability", .text s.wildcardAbility),
      ("hierarchy_max_depth", .int s.hierarchyMaxDepth),
    ("cache_backend", .text s.cacheKind.word), ("cache_prefix", .text s.cacheSpace),
    ("decision_cache_ttl", micros s.decisionTtl), ("ruleset_cache_ttl", micros s.rulesetTtl),
    ("effective_permissions_cache_ttl", micros s.permissionsTtl),
    ("all_stores_cache_ttl", micros s.allStoresTtl), ("redis_url", .text s.redisUrl),
    ("redis_socket_timeout", micros s.redisTimeout), ("database_url", .text s.databaseUrl),
    ("database_echo", .bool s.databaseEcho), ("database_pool_size", .int s.poolSize),
    ("database_max_overflow", .int s.maxOverflow), ("database_pool_timeout", .int s.poolTimeout)]

/-- The names of all settings. -/
def names : List String := standard.toFields.map (·.1)

end Settings
end AccessControl
