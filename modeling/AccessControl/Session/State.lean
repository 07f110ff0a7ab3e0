import AccessControl.Cache.Decisions
import AccessControl.Database.Queries
import AccessControl.Settings.Basic

/-! # Sessions

A session works on the tables of the database and on a cache.  What it changes in the tables is
either saved (`commit`) or given up (`rollback`); the cache keeps what was done to it.  A
session also keeps the role graph of each store that it has looked at, until the hierarchy of
the store is changed through it.

`Session.run` runs an operation as one unit: its changes are saved when it succeeds, and
given up when it fails. -/

namespace AccessControl

open Database

/-- A session: its settings, the tables as it sees them, the saved tables, the role
graphs that it keeps, the cache, the stored expressions that were reported as
unreadable, and the records made so far. -/
structure Session where
  settings : Settings
  tables : Tables
  saved : Tables
  graphs : List (Value × RoleGraph Int)
  cache : Cache
  reported : List String
  records : List Log.Record

/-- An operation of a session. -/
abbrev SessionM := ExceptT Failure (StateM Session)

namespace Session

/-- A session over an empty database. -/
def start (settings : Settings) (cache : Cache) : Session where
  settings := settings
  tables := .empty
  saved := .empty
  graphs := []
  cache := cache
  reported := []
  records := []

/-! ### Units of work -/

/-- The session after its changes are saved. -/
def commit (s : Session) : Session := { s with saved := s.tables }

/-- The session after its changes are given up. -/
def rollback (s : Session) : Session := { s with tables := s.saved }

/-- A new session over the same database and cache. -/
def reopen (s : Session) : Session := { s.rollback with graphs := [] }

/-- Runs an operation as one unit. -/
def run {α : Type} (operation : SessionM α) (s : Session) : Except Failure α × Session :=
  match (ExceptT.run operation).run s with
  | (.ok a, s) => (.ok a, s.commit)
  | (.error e, s) => (.error e, s.rollback)

/-! ### Parts of operations -/

/-- Runs an operation of the cache; its records become records of the session. -/
def onCache {α : Type} (operation : CacheM α) : SessionM α := ExceptT.mk do
  let s ← get
  let (result, cache) := (ExceptT.run operation).run s.cache
  set { s with cache := { cache with records := [] }, records := s.records ++ cache.records }
  return result

instance : MonadLift CacheM SessionM := ⟨onCache⟩

/-- The session as it is now. -/
def current : SessionM Session := getThe Session

/-- Notes a record. -/
def note (level : Log.Level) (channel : Log.Channel) (event : String) (details : Fields) :
    SessionM Unit :=
  modifyThe Session fun s =>
    { s with records := s.records ++ [⟨level, channel, event, Log.context details⟩] }

/-- Changes the tables. -/
def setTables (t : Tables) : SessionM Unit := modifyThe Session fun s => { s with tables := t }

/-- Is there a row with the number?  Null is the number of none. -/
def exists? (has : Tables → Int → Bool) (key : Value) : SessionM Bool := do
  match ← askedKey key with
  | some id => return has (← current).tables id
  | none => return false

/-- The numbers with which columns are compared; `none` when one of them is that of no row. -/
def askedAll : List Value → SessionM (Option (List Int))
  | [] => return some []
  | v :: vs => do
    let n ← asked v
    let ns ← askedAll vs
    return n.bind fun n => ns.map (n :: ·)

/-- The fields for the data and the truth value that are given. -/
def givenFields (data isActive : Value) : Fields :=
  (dataName, data) :: if isActive.isNull then [] else [("is_active", isActive)]

end Session
end AccessControl
