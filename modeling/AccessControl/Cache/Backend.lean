import AccessControl.Cache.Entries
import AccessControl.Failure
import AccessControl.Log.Record
import AccessControl.Text.Case
import AccessControl.Value.Json
import AccessControl.Value.Member

/-! # Back ends of the cache

A back end keeps values under keys.  The memory of one process keeps them as they are.  A shared
string store keeps their JSON text and may be out of reach: then every call fails, and nothing takes
its place.  Both serve the same five operations: `get`, `set`, `add` (only under a free key),
`increment` and `delete`.

The operations work on a `Cache`, which also has a clock, seeds for fresh counters and the records
made on the way.  A failed operation keeps what was done before it failed. -/

namespace AccessControl

/-! ### State -/

namespace Cache

/-- A call to the string store. -/
inductive Call where
  | get (key : String)
  | set (key text : String) (ttl : Option Int) (onlyIfFree : Bool)
  | increment (key : String)
  | delete (keys : List String)
  deriving DecidableEq, Repr

/-- A string store: its entries, whether it is out of reach, the numbers of the calls that fail, the
number of calls so far, and the calls since they were last asked for. -/
structure Remote where
  entries : Entries String
  down : Bool
  faults : List Nat
  served : Nat
  calls : List Call
  deriving Repr

/-- The string store without entries. -/
def Remote.empty : Remote := ⟨[], false, [], 0, []⟩

/-- Where values are kept. -/
inductive Backend where
  | memory (entries : Entries Value)
  | remote (store : Remote)

end Cache

/-- A cache: its back end, the first part of all its keys, the time in seconds, the seeds of fresh
counters, of which the last one is used for ever, and the records made so far. -/
structure Cache where
  backend : Cache.Backend
  space : String
  clock : Int
  seeds : List Int
  records : List Log.Record

/-- An operation on a cache. -/
abbrev CacheM := ExceptT Failure (StateM Cache)

namespace Cache

/-! ### Parts of operations -/

/-- Notes a record. -/
def note (level : Log.Level) (channel : Log.Channel) (event : String) (details : Fields) :
    CacheM Unit :=
  modify fun c => { c with records := c.records ++ [⟨level, channel, event, details⟩] }

/-- Takes a seed. -/
def takeSeed : CacheM Int := do
  match (← get).seeds with
  | [] => return 0
  | [seed] => return seed
  | seed :: rest =>
    modify fun c => { c with seeds := rest }
    return seed

/-- Puts other entries into memory. -/
def setMemory (entries : Entries Value) : CacheM Unit :=
  modify fun c => { c with backend := .memory entries }

/-- Puts another string store. -/
def setRemote (store : Remote) : CacheM Unit := modify fun c => { c with backend := .remote store }

/-- Notes a call to the string store, and fails when the store does not answer it.  A store that
answers has dropped all that has expired. -/
def reach (store : Remote) (call : Call) (failure : Failure) : CacheM Remote := do
  let store := { store with calls := store.calls ++ [call], served := store.served + 1 }
  setRemote store
  if store.down || store.faults.contains store.served then throw failure
  else
    let store := { store with entries := store.entries.live (← get).clock }
    setRemote store
    return store

/-- The failure of a read. -/
def readFailure (key : String) : Failure := .cacheDown ("Cache read failed for " ++ Text.quoted key)

/-- The failure of a write. -/
def writeFailure (key : String) : Failure :=
  .cacheDown ("Cache write failed for " ++ Text.quoted key)

/-- The failure of an increment. -/
def incrementFailure (key : String) : Failure :=
  .cacheDown ("Cache increment failed for " ++ Text.quoted key)

/-- The failure of a deletion. -/
def deleteFailure : Failure := .cacheDown "Cache delete failed"

/-- Does the string store take the text for a whole number? -/
def isCounterText (text : String) : Bool :=
  let digits := text.toList.dropWhile (· == '-')
  !digits.isEmpty && digits.all fun c => (Text.digitValue c).isSome

/-! ### Operations -/

/-- The number of seconds after which something with a lifetime is gone at every whole
moment; null is for ever. -/
def lifetime : Value → Except Failure (Option Int)
  | .null => .ok none
  | .float x => .ok x.ceiling
  | v =>
    match v.whole? with
    | some n => .ok (some n)
    | none => .error (.type none)

/-- The value in a text of the string store; a text that is no JSON counts as nothing. -/
def decode (text : String) : CacheM Value := do
  match Value.ofJson text with
  | .ok v => return v
  | .error _ =>
    note .warning .backend "authz.cache.decode_failed" []
    return .null

/-- The value under a key; null when there is none. -/
def read (key : String) : CacheM Value := do
  let c ← get
  match c.backend with
  | .memory entries =>
    let (found, entries) := entries.find c.clock key
    setMemory entries
    return (found.map (·.value)).getD .null
  | .remote store =>
    let store ← reach store (.get key) (readFailure key)
    match (store.entries.find c.clock key).1 with
    | some e => decode e.value
    | none => return .null

/-- Puts a value under a key for so many seconds, or for ever. -/
def write (key : String) (value : Value) (ttl : Option Int) : CacheM Unit := do
  let c ← get
  let expiresAt := expiry c.clock ttl
  match c.backend with
  | .memory entries => setMemory (entries.put ⟨key, value, expiresAt⟩)
  | .remote store =>
    let text := value.toSortedJson
    let store ← reach store (.set key text ttl false) (writeFailure key)
    setRemote { store with entries := store.entries.put ⟨key, text, expiresAt⟩ }

/-- Puts a value under a key that is free.  The result says whether it was. -/
def add (key : String) (value : Value) (ttl : Option Int) : CacheM Bool := do
  let c ← get
  let expiresAt := expiry c.clock ttl
  match c.backend with
  | .memory entries =>
    let (found, entries) := entries.find c.clock key
    if found.isSome then
      setMemory entries
      return false
    else
      setMemory (entries.put ⟨key, value, expiresAt⟩)
      return true
  | .remote store =>
    let text := value.toSortedJson
    let store ← reach store (.set key text ttl true) (writeFailure key)
    if (store.entries.find c.clock key).1.isSome then return false
    else
      setRemote { store with entries := store.entries.put ⟨key, text, expiresAt⟩ }
      return true

/-- Adds one to the number under a key, which counts as zero when there is none. -/
def increment (key : String) : CacheM Int := do
  let c ← get
  match c.backend with
  | .memory entries =>
    let (found, entries) := entries.find c.clock key
    setMemory entries
    match found with
    | none =>
      setMemory (entries.put ⟨key, .int 1, none⟩)
      return 1
    | some e =>
      match e.value with
      | .int n =>
        setMemory (entries.put ⟨key, .int (n + 1), e.expiresAt⟩)
        return n + 1
      | _ => throw (.value ("Cache value at " ++ Text.quoted key ++ " is not an integer"))
  | .remote store =>
    let store ← reach store (.increment key) (incrementFailure key)
    let (text, expiresAt) := match (store.entries.find c.clock key).1 with
      | some e => (e.value, e.expiresAt)
      | none => ("0", none)
    if !isCounterText text then throw (incrementFailure key)
    else
      match Text.readInt text with
      | .error e => throw (Failure.numeral text e)
      | .ok n =>
        setRemote { store with entries := store.entries.put ⟨key, Text.intText (n + 1), expiresAt⟩ }
        return n + 1

/-- Removes what is under keys, and counts it. -/
def delete (keys : List String) : CacheM Int := do
  let c ← get
  match c.backend with
  | .memory entries =>
    let (count, entries) := entries.remove c.clock keys
    setMemory entries
    return count
  | .remote store =>
    if keys.isEmpty then return 0
    else
      let store ← reach store (.delete keys) deleteFailure
      let (count, entries) := store.entries.remove c.clock keys
      setRemote { store with entries := entries }
      return count

/-- Removes everything from memory; a string store cannot be emptied. -/
def clear : CacheM Unit := do
  match (← get).backend with
  | .memory _ => setMemory []
  | .remote _ => throw .shape

/-- Moves the clock on, and gives the new time. -/
def advance (seconds : Int) : CacheM Int := do
  let now := (← get).clock + seconds
  modify fun c => { c with clock := now }
  return now

/-- What is there now: values, or for a string store their texts. -/
def contents : CacheM Fields := do
  let c ← get
  match c.backend with
  | .memory entries => return (entries.live c.clock).map fun e => (e.key, e.value)
  | .remote store => return (store.entries.live c.clock).map fun e => (e.key, .text e.value)

end Cache
end AccessControl
