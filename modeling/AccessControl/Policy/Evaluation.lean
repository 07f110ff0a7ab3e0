import AccessControl.Policy.Abilities
import AccessControl.Policy.Caller
import AccessControl.Policy.Verdict
import AccessControl.Rule.Definition
import AccessControl.Stores.Context

/-! # Evaluation of a rule

A selected rule is evaluated for a caller and the store ids of the request.  A role of the rule
grants access at once.  Otherwise the scope of the rule says whose permissions count: the global
ones, those of the user in each store of the request, or the global ones of a user who is assigned
to all active stores.  Where the permissions in stores come from is left open (`PermissionSource`),
and so is the monad in which they are asked for. -/

namespace AccessControl.Policy

/-! ### Permissions of a rule -/

/-- Is one of the alternative permissions of the rule held, and one allowed? -/
def meetsAny (rule : Rule) (held : List String) (allowed : Option (List String)) : Bool :=
  rule.permissionsAny.any held.contains && allowsAny allowed rule.permissionsAny

/-- Are all joint permissions of the rule held and allowed? -/
def meetsAll (rule : Rule) (held : List String) (allowed : Option (List String)) : Bool :=
  !rule.permissionsAll.isEmpty && rule.permissionsAll.all held.contains &&
    allowsAll allowed rule.permissionsAll

/-- A verdict on a rule. -/
def verdict (rule : Rule) (authorized : Bool) (reason : Reason) (required : List String)
    (stores : StoreMeta) : Verdict :=
  ⟨authorized, reason.code, required.map .text, stores, rule.id⟩

/-- The verdict on the permissions that are held, under what the token allows. -/
def allowedVerdict (rule : Rule) (held : List String) (allowed : Option (List String))
    (stores : StoreMeta) : Verdict :=
  if meetsAny rule held allowed then verdict rule true .permissionsAny rule.permissionsAny stores
  else if meetsAll rule held allowed then
    verdict rule true .permissionsAll rule.permissionsAll stores
  else verdict rule false .deny rule.required stores

/-- The verdict on the permissions that are held, with the abilities of a token. -/
def permissionVerdict (wildcard : String) (rule : Rule) (held abilities : List String)
    (stores : StoreMeta) : Verdict :=
  allowedVerdict rule held (allowance wildcard abilities) stores

/-- The verdict on the permissions and the abilities in any values. -/
def permissionVerdictOf (wildcard : Value) (rule : Rule) (held abilities : Value)
    (stores : StoreMeta) : Except Failure Verdict := do
  let names := Value.textsAmong (← held.members)
  let members ← abilities.members
  if meetsAny rule names none || meetsAll rule names none then
    let allowed ← allowanceOf wildcard (.list members)
    return allowedVerdict rule names (allowed.map Value.textsAmong) stores
  else return verdict rule false .deny rule.required stores

/-! ### Stores -/

/-- Where the permissions of users in stores are asked for. -/
structure PermissionSource (m : Type → Type) where
  /-- The permissions of a user in a store. -/
  inStore : Value → Value → m (List String)
  /-- Is the user assigned to every active store? -/
  hasAllStores : Value → m Bool

/-- The store ids that count for a rule: only a rule for single stores looks at the request. -/
def storeIdsFor (rule : Rule) (context : Option Stores.Context) :
    Except Text.NumeralError (List Int) :=
  match context with
  | none => .ok []
  | some c =>
    if Scope.ofValue rule.scope = some .perStore then Stores.storeIds c rule.sources else .ok []

/-- The mode that a verdict shows for the scope of a rule. -/
def modeLabel (scope : Value) : Except Failure Value :=
  match Scope.ofValue scope with
  | some s => .ok (.text s.label)
  | none => if scope.isScalar then .ok scope else .error (.type none)

variable {m : Type → Type} [Monad m] [MonadExceptOf Failure m]

/-- Is the rule met by the permissions of the caller in a store? -/
def allowsIn (source : PermissionSource m) (wildcard : String) (rule : Rule) (caller : Caller)
    (store : Value) : m Bool := do
  let held ← if caller.userId.isNull then pure [] else source.inStore caller.userId store
  return (permissionVerdict wildcard rule held caller.abilities
    (.ofMode Scope.none.label)).authorized

/-- The answers for stores, asked one after the other. -/
def answersFor (source : PermissionSource m) (wildcard : String) (rule : Rule) (caller : Caller) :
    StoreAnswers → List Value → m StoreAnswers
  | answers, [] => pure answers
  | answers, store :: stores => do
    let allowed ← allowsIn source wildcard rule caller store
    if store.isScalar then answersFor source wildcard rule caller (answers.set store allowed) stores
    else throw (.type none)

/-- The verdict on the answers for the stores of a request. -/
def combined (rule : Rule) (stores : List Value) (answers : StoreAnswers) : Verdict :=
  let found : StoreMeta := ⟨stores, .text Scope.perStore.label, some answers⟩
  match Matching.ofValue rule.matching with
  | .any =>
    if answers.any (·.2) then verdict rule true .storeAny rule.required found
    else verdict rule false .denyStoreAny rule.required found
  | .all =>
    if answers.all (·.2) then verdict rule true .storeAll rule.required found
    else verdict rule false .denyStoreAll rule.required found

/-- The verdict of a rule for single stores. -/
def scopedVerdict (source : PermissionSource m) (wildcard : String) (rule : Rule) (caller : Caller)
    (stores : List Value) : m Verdict :=
  if stores.isEmpty then
    if rule.allowsEmpty.isTruthy then
      pure (permissionVerdict wildcard rule caller.permissions caller.abilities
        (.ofMode "scoped-empty-allowed"))
    else pure (verdict rule false .denyNoStore rule.required (.ofMode Scope.perStore.label))
  else do
    let answers ← answersFor source wildcard rule caller [] stores
    pure (combined rule stores answers)

/-- May the caller pass a rule for all stores without being assigned to them? -/
def bypasses (wildcard : String) (rule : Rule) (caller : Caller) : Bool :=
  rule.bypassRoles.any caller.roles.contains ||
    (rule.bypassPermissions.any caller.permissions.contains &&
      coversAny wildcard caller.abilities rule.bypassPermissions)

/-- The verdict of a rule for all stores. -/
def allStoresVerdict (source : PermissionSource m) (wildcard : String) (rule : Rule)
    (caller : Caller) :
    m Verdict :=
  let found := StoreMeta.ofMode Scope.allStores.label
  if bypasses wildcard rule caller then
    pure (verdict rule true .storeAllAccess rule.bypassPermissions found)
  else do
    let assigned ← if caller.userId.isNull then pure false else source.hasAllStores caller.userId
    if assigned then
      return permissionVerdict wildcard rule caller.permissions caller.abilities found
    else return verdict rule false .denyAllStores rule.required found

/-- The verdict of a rule for a caller and the store ids of a request. -/
def evaluate (source : PermissionSource m) (wildcard : String) (rule : Rule) (caller : Caller)
    (stores : List Value) : m Verdict :=
  if rule.rolesAny.any caller.roles.contains then
    match modeLabel rule.scope with
    | .ok mode => pure (verdict rule true .roles [] ⟨stores, mode, none⟩)
    | .error e => throw e
  else
    match Scope.ofValue rule.scope with
    | some .none =>
      pure (permissionVerdict wildcard rule caller.permissions caller.abilities
        (.ofMode Scope.none.label))
    | some .perStore => scopedVerdict source wildcard rule caller stores
    | some .allStores => allStoresVerdict source wildcard rule caller
    | none =>
      pure (verdict rule false .denyInvalidMode rule.required ⟨stores, .text rule.scope.display,
        none⟩)

end AccessControl.Policy
