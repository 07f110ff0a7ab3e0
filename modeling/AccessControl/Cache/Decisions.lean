import AccessControl.Cache.Backend
import AccessControl.Cache.Keys
import AccessControl.Value.Integer

/-! # Versions, epochs and remembered answers

The cache counts the versions of the rule set and the epochs of the stores.  A counter that is not
there begins at a fresh seed, so that an evicted counter does not come back with a number that older
entries carry.  `getOrCompute` answers from the cache, or computes an answer and remembers it. -/

namespace AccessControl.Cache

/-! ### Counters -/

/-- The number of a counter.  A counter that is not there is set to a seed first. -/
def readCounter (key : String) : CacheM Int := do
  let value ← read key
  if !value.isNull then
    let n ← value.toInt
    return n
  else
    let _ ← add key (.int (← takeSeed)) none
    let value ← read key
    if !value.isNull then
      let n ← value.toInt
      return n
    else takeSeed

/-- The number of a counter after one more step. -/
def bumpCounter (key : String) : CacheM Int := do
  let _ ← readCounter key
  increment key

/-- The version of the rule set. -/
def rulesetVersion : CacheM Int := do readCounter (versionKey (← get).space)

/-- The version of the rule set after a change of the rules. -/
def bumpVersion : CacheM Int := do
  let version ← bumpCounter (versionKey (← get).space)
  note .info .cache "authz.ruleset.version.bumped" [("ruleset_version", .int version)]
  return version

/-- The epoch of a store. -/
def storeEpoch (store : Value) : CacheM Int := do readCounter (epochKey (← get).space store)

/-- The epoch of a store after a change of its hierarchy. -/
def bumpStoreEpoch (store : Value) : CacheM Int := do
  let epoch ← bumpCounter (epochKey (← get).space store)
  note .debug .cache "authz.store.epoch.bumped" [("store_id", store), ("store_epoch", .int epoch)]
  return epoch

/-! ### Answers -/

/-- The remembered answer under a key; null when there is none. -/
def remembered (key label : String) : CacheM Value := do
  let cached ← read key
  if !cached.isNull then
    note .debug .cache ("authz." ++ label ++ ".cache.hit") [("cache_key", .text key)]
  return cached

/-- Remembers an answer for so many seconds, or for ever; null is not remembered. -/
def remember (key : String) (value : Value) (ttl : Option Int) : CacheM Unit :=
  if value.isNull then return () else write key value ttl

/-- The remembered answer under a key, or else a computed one, which is remembered. -/
def getOrCompute {m : Type → Type} [Monad m] [MonadLiftT CacheM m] (key : String) (ttl : Option Int)
    (label : String) (compute : m Value) : m Value := do
  let cached ← (remembered key label : CacheM Value)
  if !cached.isNull then return cached
  else
    let value ← compute
    (remember key value ttl : CacheM Unit)
    return value

/-! ### Keys under the present epoch -/

/-- The key of the permissions of a user in a store, under its present epoch. -/
def currentPermissionsKey (user store : Value) : CacheM String := do
  let epoch ← storeEpoch store
  return permissionsKey (← get).space user store epoch

/-- The key of whether a user is assigned to all stores. -/
def currentAllStoresKey (user : Value) : CacheM String := do
  return allStoresKey (← get).space user

/-! ### Invalidation -/

/-- Forgets the permissions of a user in a store, and whether the user is assigned to all stores. -/
def invalidateUserStore (user store : Value) : CacheM Unit := do
  let permissions ← currentPermissionsKey user store
  let allStores ← currentAllStoresKey user
  let _ ← delete [permissions, allStores]

/-- Forgets whether a user is assigned to all stores. -/
def invalidateAllStores (user : Value) : CacheM Unit := do
  let _ ← delete [← currentAllStoresKey user]

end AccessControl.Cache
