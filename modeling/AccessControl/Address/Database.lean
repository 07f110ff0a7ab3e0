import AccessControl.Address.File
import AccessControl.Address.Percent
import AccessControl.Failure
import AccessControl.Numeric.Decimal
import AccessControl.Settings.Basic
import AccessControl.Text.Case
import AccessControl.Text.WordTable

/-! # Address of the database

The database is kept in memory, in a file, or by a server, as its address says.  `Engine.ofSettings`
reads the address and describes the engine that serves it: one connection is shared for memory, and
a pool of them for a file or a server.  The options of the address are checked, and an engine needs
a driver that is there. -/

namespace AccessControl.Address

/-! ### Addresses -/

/-- A database address taken apart.  Of the account it says only whether it names anybody. -/
structure DatabaseAddress where
  driver : String
  account : Bool
  host : Option String
  socket : Option String
  database : Option String
  options : List (String × List String)
  deriving DecidableEq, Repr

/-- Is the character a letter, a number or an underscore? -/
def isWordChar (c : Char) : Bool :=
  c == '_' || Text.isAsciiDigit c || ('a' ≤ c && c ≤ 'z') || ('A' ≤ c && c ≤ 'Z')
    || (0x80 ≤ c.toNat && Text.inRanges Text.wordRanges c.toNat)

/-- Is the character part of the name of a driver? -/
def isDriverChar (c : Char) : Bool := c == '+' || isWordChar c

/-- The name of a driver at the front of an address, and what follows the slashes after it. -/
def takeDriver (cs : List Char) : Option (List Char × List Char) :=
  let driver := cs.takeWhile isDriverChar
  match cs.dropWhile isDriverChar with
  | ':' :: '/' :: '/' :: rest => if driver.isEmpty then none else some (driver, rest)
  | _ => none

/-- The account at the front of an address, when there is one, and what follows it: a user name
without colons and slashes, perhaps a colon and a password, and an at sign.  The account is
given by the text of both. -/
def takeAccount (cs : List Char) : Option (List Char × List Char) :=
  let (user, rest) := cutAt (fun c => c == ':' || c == '/') cs
  let without : Option (List Char × List Char) :=
    (splitLast '@' user).map fun (user, after) => (user, after ++ rest)
  match rest with
  | ':' :: password =>
    match splitFirst '@' password with
    | some (password, after) => some (user ++ password, after)
    | none => without
  | _ => without

/-- The host at the front of the characters, perhaps in brackets, and the rest. -/
def takeHost (cs : List Char) : Option (List Char) × List Char :=
  let bracketed : Option (List Char × List Char) :=
    match cs with
    | '[' :: inside =>
      let (place, rest) := cutAt (fun c => c == '/' || c == '?') inside
      (splitLast ']' place).bind fun (host, after) =>
        if host.isEmpty then none else some (host, after ++ rest)
    | _ => none
  match bracketed with
  | some (host, rest) => (some host, rest)
  | none =>
    let (host, rest) := cutAt (fun c => c == '/' || c == ':' || c == '?') cs
    (nonEmpty host, rest)

/-- Adds a value to an option. -/
def addOption (name value : String) : List (String × List String) → List (String × List String)
  | [] => [(name, [value])]
  | o :: rest =>
    if o.1 = name then (name, o.2 ++ [value]) :: rest else o :: addOption name value rest

/-- The options of a query whose values are not empty, with all values of each. -/
def databaseOptions (query : List Char) : List (String × List String) :=
  (Text.splitOn '&' query).foldl (fun found part =>
    match splitFirst '=' part with
    | some (name, value) =>
      if value.isEmpty then found
      else addOption (String.ofList (unescapeQuery name)) (String.ofList (unescapeQuery value))
        found
    | none => found) []

/-- The address in a text. -/
def readDatabase (url : String) : Option DatabaseAddress := do
  let (driver, rest) ← takeDriver url.toList
  let (account, rest) := (takeAccount rest).getD ([], rest)
  let (host, rest) := takeHost rest
  let (socket, rest) := match rest with
    | ':' :: rest =>
      let (socket, rest) := cutAt (fun c => c == '/' || c == '?') rest; (some socket, rest)
    | _ => (none, rest)
  let (database, rest) := match rest with
    | '/' :: rest => let (name, rest) := cutAt (· == '?') rest; (some name, rest)
    | _ => (none, rest)
  let query := match rest with
    | '?' :: query => query.takeWhile (· != '\n')
    | _ => []
  return ⟨String.ofList driver, !account.isEmpty, host.map String.ofList, socket.map String.ofList,
    database.map String.ofList, databaseOptions query⟩

/-- The kind of database behind a driver. -/
def DatabaseAddress.kind (a : DatabaseAddress) : String := (Text.split '+' a.driver).headD ""

/-! ### Drivers -/

/-- The drivers that can be used. -/
def usableDrivers : List String :=
  ["sqlite", "sqlite+pysqlite", "sqlite+base", "postgresql+psycopg", "postgresql+psycopg_async"]

/-- The drivers that are known but not there. -/
def absentDrivers : List String :=
  ["sqlite+aiosqlite", "sqlite+pysqlcipher", "postgresql+psycopg2", "postgresql+base",
   "postgresql+asyncpg", "postgresql+pg8000", "postgresql+psycopg2cffi"]

/-- The driver for servers that are addressed without one. -/
def serverDriver : String := "postgresql+psycopg"

/-- The driver whose connections are awaited. -/
def awaitedDriver : String := "postgresql+psycopg_async"

/-- Checks that a driver can be used; a name has at most two parts, and no plugin is known. -/
def checkDriver (driver : String) (options : List (String × List String)) : Except Failure Unit :=
  if (options.lookup "plugin").isSome then .error .unknownModule
  else if 2 < (Text.split '+' driver).length then
    .error (.value "too many values to unpack (expected 2)")
  else if usableDrivers.contains driver then .ok ()
  else if absentDrivers.contains driver then .error .absentModule
  else .error .unknownModule

/-! ### Options of files -/

/-- The words for true. -/
def yesWords : List String := ["true", "yes", "on", "y", "t", "1"]

/-- The words for false. -/
def notWords : List String := ["false", "no", "off", "n", "f", "0"]

/-- The truth value of an option; several values are true. -/
def flagOption (values : List String) : Except Failure Bool :=
  match values with
  | [s] =>
    let word := Text.lower (Text.strip s)
    if yesWords.contains word then .ok true
    else if notWords.contains word then .ok false
    else .error (.value ("String is not true/false: " ++ Text.quoted word))
  | _ => .ok true

/-- Checks that an option is a number of seconds. -/
def checkSeconds (values : List String) : Except Failure Unit :=
  match values with
  | [s] =>
    if (Double.read s).isSome then .ok ()
    else .error (.value ("could not convert string to float: " ++ Text.quoted s))
  | _ => .error (.type none)

/-- Checks that an option is a whole number. -/
def checkWhole (values : List String) : Except Failure Unit :=
  match values with
  | [s] => ((Text.readInt s).mapError (Failure.numeral s)).map fun _ => ()
  | _ => .error (.type none)

/-- Checks an option, when it is given. -/
def checkOption {α : Type} (options : List (String × List String)) (name : String)
    (check : List String → Except Failure α) : Except Failure (Option α) :=
  match options.lookup name with
  | some values => some <$> check values
  | none => .ok none

/-- Checks the options of a file: whether its name is an address, and the options of the connection.
An address has to be there. -/
def checkFileOptions (options : List (String × List String)) (database : Option String) :
    Except Failure Unit := do
  let addressed ← checkOption options "uri" flagOption
  let _ ← checkOption options "timeout" checkSeconds
  let _ ← checkOption options "detect_types" checkWhole
  let _ ← checkOption options "check_same_thread" flagOption
  let _ ← checkOption options "cached_statements" checkWhole
  if addressed == some true && database.isNone then .error (.type none)

/-! ### Options of servers -/

/-- A host with the number of its socket, when it is one name and perhaps a number. -/
def hostWithSocket (host : String) : Option (Option String) :=
  let (name, rest) := cutAt (· == ':') host.toList
  let isNameChar (c : Char) : Bool :=
    Text.isAsciiDigit c || ('a' ≤ c && c ≤ 'z') || ('A' ≤ c && c ≤ 'Z') || c == '-' || c == '.'
  let digits := rest.drop 1
  let digits := if digits.getLast? == some '\n' then digits.dropLast else digits
  if name.all isNameChar && digits.all fun c => (Text.digitValue c).isSome then
    some ((nonEmpty digits).map String.ofList)
  else none

/-- The hosts of the options, counted, and the numbers of their sockets when those stand beside
them. -/
def hostsOf (values : List String) : Except Failure (Nat × Option (List (Option String))) :=
  match values with
  | [one] =>
    let hosts := Text.split ',' one
    match hosts with
    | [host] => .ok (1, if host.contains ':' then (hostWithSocket host).map ([·]) else none)
    | _ => .ok (hosts.length, none)
  | many =>
    let parts := many.map (Text.split ':')
    if parts.all (2 < ·.length) then .error (.value "too many values to unpack (expected 2)")
    else .ok (many.length, some (parts.map (·[1]?)))

/-- Checks the numbers of sockets: each is a whole number or nothing. -/
def checkSockets (sockets : List (Option String)) : Except Failure Unit :=
  if sockets.all fun s => s.all fun t => t == "" || (Text.readInt t).toBool then
    .ok ()
  else .error .address

/-- Checks the options of a server: hosts and sockets go together in number, and the
sockets stand in one place. -/
def checkServerOptions (options : List (String × List String)) : Except Failure Unit := do
  let (hosts, beside) ← match options.lookup "host" with
    | some values => hostsOf values
    | none => .ok (0, none)
  let apart := (options.lookup "port").map fun values =>
    match values with
    | [one] => Text.split ',' one
    | many => many
  if beside.isSome && apart.isSome then .error .address
  else
    let sockets := (beside.or (apart.map (·.map some))).getD []
    checkSockets sockets
    if hosts != 0 && sockets.length != 0 && hosts != sockets.length &&
      (1 < hosts || 1 < sockets.length) then
      .error .address

/-! ### Engines -/

/-- How connections are kept. -/
inductive Pool where
  /-- All share one connection. -/
  | shared
  /-- Each thread has its own. -/
  | threads
  /-- A queue of connections. -/
  | queue
  /-- A queue of connections that are awaited. -/
  | awaitedQueue
  deriving DecidableEq, Repr

/-- What serves a database. -/
inductive Engine where
  /-- Memory or a file of this process. -/
  | embedded (driver : String) (database : Option String) (pool : Pool) (echo : Bool)
  /-- A server with a pool of connections. -/
  | server (driver : String) (database host : Option String) (socket : Option Int) (pool : Pool)
      (echo : Bool)
      (size overflow timeout : Int)
  deriving DecidableEq, Repr

namespace Engine

/-- Is the database kept in memory? -/
def isMemory : Option String → Bool
  | none => true
  | some name => name == "" || name == ":memory:"

/-- The pool for a database of this process. -/
def poolOf (a : DatabaseAddress) : Pool :=
  if isMemory a.database then .shared
  else if a.options.lookup "mode" == some ["memory"] then .threads
  else .queue

/-- The accounts whose home directories are known. -/
def knownHomes : List String := ["~", "~root"]

/-- Checks that the directories on the way to a file can be made: a tilde in front asks
for a home directory. -/
def checkHome (path : String) : Except Failure Unit :=
  match segments path with
  | first :: _ =>
    if first.startsWith "~" && !path.startsWith "/" && !knownHomes.contains first then
      .error (.aborted "Could not determine home directory.")
    else .ok ()
  | [] => .ok ()

/-- Checks that a file can be opened.  A tilde in its name means nothing to the one who opens it. -/
def checkFile (path : String) : Except Failure Unit :=
  let place := placeOf (segments path)
  if !namesFile path then .error .unopened
  else if !path.startsWith "/" && 1 < place.length && place.head?.any (·.startsWith "~") then
    .error .unopened
  else .ok ()

/-- The engine for a database of this process. -/
def embed (settings : Settings) (a : DatabaseAddress) (socket : Option Int) :
    Except Failure Engine := do
  let inMemory := isMemory a.database
  if !inMemory then checkHome (a.database.getD "")
  checkDriver a.driver a.options
  if a.account || a.host.isSome || socket.any (· != 0) then .error .address
  else
    checkFileOptions a.options a.database
    if !inMemory then checkFile (a.database.getD "")
    return .embedded a.driver a.database (poolOf a) settings.databaseEcho

/-- The engine for the database of a server. -/
def serve (settings : Settings) (a : DatabaseAddress) (socket : Option Int) :
    Except Failure Engine := do
  let driver := if a.driver == "postgresql" then serverDriver else a.driver
  checkDriver driver a.options
  checkServerOptions a.options
  return .server driver a.database a.host socket
    (if driver == awaitedDriver then .awaitedQueue else .queue)
    settings.databaseEcho settings.poolSize settings.maxOverflow settings.poolTimeout

/-- The engine for an address. -/
def ofAddress (settings : Settings) (a : DatabaseAddress) : Except Failure Engine := do
  let socket ← match a.socket with
    | none => pure none
    | some text => (Text.readInt text).mapError (Failure.numeral text) |>.map some
  if a.kind == "sqlite" then embed settings a socket
  else if a.kind == "postgresql" then serve settings a socket
  else .error (.value "Unsupported database backend. Use sqlite:// or postgresql+psycopg://.")

/-- The engine under some settings. -/
def ofSettings (settings : Settings) : Except Failure Engine :=
  if settings.databaseUrl = "" then .error (.value "Settings.database_url is required.")
  else
    match readDatabase settings.databaseUrl with
    | none => .error .address
    | some a => ofAddress settings a

/-- The file of a database of this process. -/
def file : Engine → Option String
  | embedded _ database _ _ => database
  | server .. => none

end Engine
end AccessControl.Address
