import AccessControl.Address.Host
import AccessControl.Failure
import AccessControl.Numeric.Decimal
import AccessControl.Settings.Basic
import AccessControl.Text.Case

/-! # Address of the string store

The address of the string store names a scheme and then, as far as it likes, a user, a password, a
host with the number of its socket, and the number of a database, or for a local socket its path.  A
query sets the same and other options by name; what the address itself says comes before the query,
except for the number of the database.  Escapes are replaced. -/

namespace AccessControl.Address

/-! ### Parts of an address -/

/-- The schemes of the string store. -/
def storeSchemes : List String := ["redis", "rediss", "unix"]

/-- The parts of an address, as they are written. -/
structure Parts where
  user : Option (List Char)
  password : Option (List Char)
  host : Option (List Char)
  socket : Option (List Char)
  path : List Char
  query : List Char

/-- The host, perhaps in brackets, and the number of its socket. -/
def hostAndSocket (cs : List Char) : List Char × List Char :=
  match splitFirst '[' cs with
  | some (_, inside) =>
    let (host, rest) := (splitFirst ']' inside).getD (inside, [])
    (host, ((splitFirst ':' rest).map (·.2)).getD [])
  | none => (splitFirst ':' cs).getD (cs, [])

/-- A host in small letters, except for what follows a percent sign. -/
def lowerHost (host : List Char) : List Char :=
  let (name, zone) := cutAt (· == '%') host
  (Text.lower (String.ofList name)).toList ++ zone

/-- The parts of what follows the scheme and two slashes. -/
def readParts (cs : List Char) : Except Failure Parts := do
  let (place, rest) := cutAt (fun c => c == '/' || c == '?' || c == '#') cs
  checkPlace place
  let (path, rest) := cutAt (fun c => c == '?' || c == '#') rest
  let query := match rest with
    | '?' :: query => (cutAt (· == '#') query).1
    | _ => []
  let (account, site) := match splitLast '@' place with
    | some (account, site) => (some account, site)
    | none => (none, place)
  let user := account.map fun a => (splitFirst ':' a).elim a (·.1)
  let password := account.bind fun a => (splitFirst ':' a).map (·.2)
  let (host, socket) := hostAndSocket site
  return ⟨user.bind nonEmpty, password.bind nonEmpty, (nonEmpty host).map lowerHost,
    nonEmpty socket, path, query⟩

/-! ### Options -/

/-- The options of a query whose values are not empty; of several with a name the first counts. -/
def queryOptions (query : List Char) : List (String × String) :=
  let pairs := (Text.splitOn '&' query).filterMap fun part =>
    (splitFirst '=' part).bind fun (name, value) =>
      if value.isEmpty then none
      else some (String.ofList (unescapeQuery name), String.ofList (unescapeQuery value))
  pairs.foldl (fun found p => if found.any (·.1 == p.1) then found else found ++ [p]) []

/-- The options that are whole numbers. -/
def wholeOptions : List String := ["db", "max_connections", "health_check_interval", "protocol"]

/-- The options that are numbers of seconds. -/
def secondsOptions : List String := ["socket_timeout", "socket_connect_timeout", "timeout"]

/-- The options that are truth values. -/
def flagOptions : List String := ["socket_keepalive", "retry_on_timeout", "ssl_check_hostname"]

/-- The options that list the demands on certificates. -/
def demandOptions : List String := ["ssl_include_verify_flags", "ssl_exclude_verify_flags"]

/-- The demands on certificates. -/
def demands : List String :=
  ["VERIFY_DEFAULT", "VERIFY_CRL_CHECK_LEAF", "VERIFY_CRL_CHECK_CHAIN", "VERIFY_X509_STRICT",
    "VERIFY_ALLOW_PROXY_CERTS", "VERIFY_X509_TRUSTED_FIRST", "VERIFY_X509_PARTIAL_CHAIN"]

/-- The demands in a list with or without brackets around it. -/
def listedDemands (value : String) : List String :=
  let plain := String.ofList (value.toList.filter fun c => c != '[' && c != ']')
  (Text.split ',' plain).map Text.strip

/-- The words for no. -/
def noWords : List String := ["0", "F", "FALSE", "N", "NO"]

/-- The failure of an option with a wrong value. -/
def wrongOption (name : String) : Failure :=
  .value ("Invalid value for '" ++ name ++ "' in connection URL.")

/-- The value of an option. -/
def optionValue (name value : String) : Except Failure Value :=
  if wholeOptions.contains name then
    match Text.readInt value with
    | .ok n => .ok (.int n)
    | .error _ => .error (wrongOption name)
  else if secondsOptions.contains name then
    match Double.read value with
    | some x => .ok (.float x)
    | none => .error (wrongOption name)
  else if flagOptions.contains name then .ok (.bool !(noWords.contains (Text.upper value)))
  else if demandOptions.contains name && !(listedDemands value).all demands.contains then
    .error (wrongOption name)
  else .ok (.text value)

/-- The number of a socket in an address; zero counts as none. -/
def readSocket (cs : List Char) : Except Failure (Option Int) :=
  let text := String.ofList cs
  if !cs.all Text.isAsciiDigit then
    .error (.value ("Port could not be cast to integer value as " ++ Text.quoted text))
  else
    match Text.readDigitRun cs with
    | .error e => .error (.numeral text e)
    | .ok n =>
      if 65535 < n then .error (.value "Port out of range 0-65535")
      else .ok (if n = 0 then none else some (n : Int))

/-- The number of the database in the path of an address. -/
def databaseIn (path : List Char) : Option Int :=
  match Text.readInt (String.ofList ((unescape path).filter (· != '/'))) with
  | .ok n => some n
  | .error _ => none

/-- Sets a text option, when there is one. -/
def setText (options : Fields) (name : String) (cs : Option (List Char)) : Fields :=
  cs.elim options fun cs => options.insert name (.text (String.ofList (unescape cs)))

/-- Tabs and line ends count for nothing inside an address. -/
def isIgnored (c : Char) : Bool := c == '\t' || c == '\r' || c == '\n'

/-- What an address says about the connection. -/
def storeOptions (url : String) : Except Failure Fields := do
  match (storeSchemes.find? fun s => url.startsWith (s ++ "://")) with
  | none =>
    .error (.value
      "Redis URL must specify one of the following schemes (redis://, rediss://, unix://)")
  | some scheme =>
    let parts ← readParts ((url.toList.drop (scheme.length + 3)).filter (!isIgnored ·))
    let options ← (queryOptions parts.query).mapM fun o => do return (o.1, ← optionValue o.1 o.2)
    let options := setText (setText options "username" parts.user) "password" parts.password
    if scheme == "unix" then return setText options "path" (nonEmpty parts.path)
    else
      let options := setText options "host" parts.host
      let options ← match parts.socket with
        | none => pure options
        | some cs => do
          match ← readSocket cs with
          | some n => pure (options.insert "port" (.int n))
          | none => pure options
      if (options.get? "db").isSome then return options
      else return (databaseIn parts.path).elim options fun n => options.insert "db" (.int n)

/-! ### Connections -/

/-- The options that describe a connection. -/
def shownOptions : List String :=
  ["host", "port", "db", "username", "password", "path", "decode_responses", "socket_timeout",
    "socket_connect_timeout"]

/-- The pool of connections has no negative size. -/
def checkPool (options : Fields) : Except Failure Unit :=
  match options.get? "max_connections" with
  | some (.int n) =>
    if n < 0 then .error (.value "\"max_connections\" must be a positive integer") else .ok ()
  | _ => .ok ()

/-- The connection to the string store under some settings: answers come as texts,
and waiting is bounded. -/
def connection (settings : Settings) : Except Failure Fields := do
  let seconds : Value := .float settings.redisTimeout.toSeconds
  let options ← storeOptions settings.redisUrl
  checkPool options
  let all := Fields.insertAll
    [("decode_responses", .bool true), ("socket_timeout", seconds),
     ("socket_connect_timeout", seconds)] options
  return shownOptions.map fun name => (name, (Fields.get? all name).getD .null)

end AccessControl.Address
