import AccessControl.Numeric.Decimal
import AccessControl.Schema.Coercion
import AccessControl.Settings.Basic
import AccessControl.Value.Display
import AccessControl.Value.Json

/-! # Reading settings

Every setting has its own reading of a configured value.  Durations are numbers of seconds or texts
with a unit, lists of names are lists, JSON texts or texts with commas, and words are read in any
case.  All issues are reported together; a value of a type that no reading knows, or a duration
without end, stops the reading.  What is configured is given as a value of JSON: a duration that has
been made already is none. -/

namespace AccessControl.Settings

open Schema (Checked)

/-! ### Durations -/

/-- The seconds of a unit. -/
def unitSeconds (unit : Char) : Option Nat :=
  match Text.asciiLowerChar unit with
  | 's' => some 1
  | 'm' => some 60
  | 'h' => some 3600
  | 'd' => some 86400
  | _ => none

/-- The seconds in a text that ends in a unit. -/
def readWithUnit (s : String) : Option Double :=
  match s.toList.reverse with
  | [] => none
  | unit :: before =>
    let number := Text.strip (String.ofList before.reverse)
    match unitSeconds unit with
    | none => none
    | some k => if number.isEmpty then none else (Double.read number).map (Double.scaleBy k)

/-- The number of seconds that a value denotes. -/
def readSeconds (name : String) : Value → Checked Double
  | .bool b => .ok (Double.ofInt (if b then 1 else 0))
  | .int n =>
    match Double.ofInt n with
    | .infinite _ => .stopped .range
    | x => .ok x
  | .float x => .ok x
  | .text text =>
    let s := Text.strip text
    if s.isEmpty then .refused (name ++ " must not be blank")
    else
      match Double.read s with
      | some x => .ok x
      | none =>
        match readWithUnit s with
        | some x => .ok x
        | none => .refused (name ++ " must be secs or 'Xs','Xm','Xh','Xd'")
  | _ => .stopped (.type (some (name ++ " must be number, duration string, or timedelta")))

/-- The duration of a number of seconds. -/
def settle (name : String) (seconds : Double) : Checked Duration :=
  if seconds.isNotPositive then .refused (name ++ " must be > 0 seconds")
  else
    match Duration.ofSeconds seconds with
    | .ok d => .ok d
    | .error .notANumber => .refused "cannot convert float NaN to integer"
    | .error .tooLong => .stopped .range

/-- The duration that a value denotes. -/
def readDuration (name : String) (v : Value) : Checked Duration :=
  (readSeconds name v).andThen (settle name)

/-! ### Lists of names -/

/-- Trimmed names without blank ones and repeats. -/
def cleanList (names : List String) : List String :=
  Text.distinct ((names.map Text.strip).filter (· != ""))

/-- The names in a JSON text of a list. -/
def readJsonList (s : String) : Checked (List String) :=
  match Value.ofJson s with
  | .ok (.list items) => .ok (cleanList (items.map Value.display))
  | .error (.tooLong digits) => .refused ((Text.NumeralError.tooLong digits).message s)
  | _ => .refused "Expected a JSON array"

/-- The names that a value lists; null lists the given ones. -/
def readList (absent : List String) : Value → Checked (List String)
  | .null => .ok (cleanList absent)
  | .text text =>
    let s := Text.strip text
    if s.startsWith "[" then readJsonList s else .ok (cleanList (Text.split ',' s))
  | .list items => .ok (cleanList (items.map Value.display))
  | _ => .stopped (.type (some "Expected string or list"))

/-! ### Words -/

/-- The levels of log records that can be asked for. -/
def levels : List String := ["CRITICAL", "DEBUG", "ERROR", "INFO", "WARNING"]

/-- The text of a value without white space at its ends; null has none. -/
def wordOf (v : Value) : String := if v.isNull then "" else Text.strip v.display

/-- The level that a value denotes. -/
def readLevel (v : Value) : Checked String :=
  let word := Text.upper (wordOf v)
  if word.isEmpty then .ok standard.loggingLevel
  else if levels.contains word then .ok word
  else .refused ("AUTHZ_LOGGING_LEVEL must be one of: " ++ String.intercalate ", " levels ++ ".")

/-- The format of log lines that a value denotes. -/
def readLogFormat (v : Value) : Checked LogFormat :=
  match Text.lower (wordOf v) with
  | "" => .ok standard.logFormat
  | "console" => .ok .console
  | "json" => .ok .json
  | _ => .refused "AUTHZ_LOG_FORMAT must be one of: console, json."

/-- The kind of back end that a value denotes. -/
def readCacheKind : Value → Checked CacheKind
  | .null => .ok standard.cacheKind
  | .text "" => .ok standard.cacheKind
  | v =>
    match Text.lower (Text.strip v.display) with
    | "memory" => .ok .memory
    | "redis" => .ok .redis
    | _ => .issue "literal_error"

/-! ### Texts and numbers with bounds -/

/-- The value as a text without white space at its ends. -/
def readText (v : Value) : Checked String := (Schema.text v).map (Text.stripOf Text.isSpace)

/-- The value as a text that is not blank. -/
def readNonEmpty (v : Value) : Checked String :=
  (readText v).andThen fun s => if s.isEmpty then .issue "string_too_short" else .ok s

/-- The first part of cache keys: a text without colons at its ends. -/
def readSpace (v : Value) : Checked String := (readNonEmpty v).map (Text.stripOf (· == ':'))

/-- A whole number that is at least a bound. -/
def readAtLeast (bound : Int) (v : Value) : Checked Int :=
  (Schema.int v).andThen fun n => if n < bound then .issue "greater_than_equal" else .ok n

/-- A whole number above a bound. -/
def readAbove (bound : Int) (v : Value) : Checked Int :=
  (Schema.int v).andThen fun n => if n ≤ bound then .issue "greater_than" else .ok n

/-- The greatest depth of the hierarchy that can be asked for. -/
def depthLimit : Int := 64

/-- The depth to which the hierarchy is followed. -/
def readDepth (v : Value) : Checked Int :=
  (Schema.int v).andThen fun n =>
    if depthLimit < n then .issue "less_than_equal"
    else if n < 1 then .issue "greater_than_equal"
    else .ok n

/-! ### All settings -/

/-- The name of a setting in messages. -/
def messageName (name : String) : String := "AUTHZ_" ++ Text.asciiUpper name

/-- A duration among the fields. -/
def durationIn (fields : Fields) (name : String) (absent : Duration) : Checked Duration :=
  Schema.withDefault fields name (readDuration (messageName name)) absent

/-- The settings in the fields of an object. -/
def check (fields : Fields) : Checked Settings :=
  let s := standard
  Settings.mk
    <$> Schema.withDefault fields "logging_level" readLevel s.loggingLevel
    <*> Schema.withDefault fields "log_format" readLogFormat s.logFormat
    <*> Schema.withDefault fields "allow_if_no_rule" Schema.bool s.allowIfNoRule
    <*> Schema.withDefault fields "super_roles" (readList standardSuperRoles) s.superRoles
    <*> Schema.withDefault fields "wildcard_ability" readNonEmpty s.wildcardAbility
    <*> Schema.withDefault fields "hierarchy_max_depth" readDepth s.hierarchyMaxDepth
    <*> Schema.withDefault fields "cache_backend" readCacheKind s.cacheKind
    <*> Schema.withDefault fields "cache_prefix" readSpace s.cacheSpace
    <*> durationIn fields "decision_cache_ttl" s.decisionTtl
    <*> durationIn fields "ruleset_cache_ttl" s.rulesetTtl
    <*> durationIn fields "effective_permissions_cache_ttl" s.permissionsTtl
    <*> durationIn fields "all_stores_cache_ttl" s.allStoresTtl
    <*> Schema.withDefault fields "redis_url" readText s.redisUrl
    <*> durationIn fields "redis_socket_timeout" s.redisTimeout
    <*> Schema.withDefault fields "database_url" readText s.databaseUrl
    <*> Schema.withDefault fields "database_echo" Schema.bool s.databaseEcho
    <*> Schema.withDefault fields "database_pool_size" (readAtLeast 1) s.poolSize
    <*> Schema.withDefault fields "database_max_overflow" (readAtLeast 0) s.maxOverflow
    <*> Schema.withDefault fields "database_pool_timeout" (readAbove 0) s.poolTimeout

/-- The settings in the fields of an object. -/
def read (fields : Fields) : Except Failure Settings := (check fields).toExcept

end AccessControl.Settings
