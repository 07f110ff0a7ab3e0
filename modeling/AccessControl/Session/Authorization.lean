import AccessControl.Policy.Evaluation
import AccessControl.Policy.Request
import AccessControl.Session.Permissions
import AccessControl.Session.Rules

/-! # Authorization

May a caller do what a request asks for?  A super role is allowed everything.  Otherwise one rule is
selected among the active ones and evaluated; the verdict of a user is remembered under the version
of the rule set and all facts that it depends on.  Without a rule, the settings decide. -/

namespace AccessControl.Session

/-! ### Parts -/

/-- The permissions of users in stores, as this session answers for them. -/
def permissionSource (cached : Bool) : Policy.PermissionSource SessionM where
  inStore := effectivePermissions cached
  hasAllStores := hasAllStores cached

/-- Reports stored expressions that cannot be read, each once. -/
def reportUnreadable (stored : List String) : SessionM Unit := do
  let fresh := Text.distinct (stored.filter (!(← current).reported.contains ·))
  modifyThe Session fun s =>
    { s with
      reported := s.reported ++ fresh
      records := s.records ++ fresh.map fun text =>
        ⟨.warning, .matcher, "authz.rules.matcher.invalid", [("path_regex", .text text)]⟩ }

/-- Reports a rule whose scope means nothing. -/
def reportScope (rule : Rule) : SessionM Unit :=
  modifyThe Session fun s =>
    { s with records := s.records ++
      [⟨.warning, .evaluation, "authz.policy.store_mode.invalid",
        [("rule_id", rule.id), ("store_scope_mode", rule.scope)]⟩] }

/-- The verdict of a rule for a caller and the stores of a request. -/
def evaluate (cached : Bool) (rule : Rule) (caller : Caller) (stores : List Value) :
    SessionM Verdict := do
  let wildcard := (← current).settings.wildcardAbility
  let verdict ← Policy.evaluate (permissionSource cached) wildcard rule caller stores
  if verdict.grantedBy = Reason.denyInvalidMode.code then reportScope rule
  return verdict

/-- Notes a decision. -/
def noteDecision (request : Request) (caller : Caller) (verdict : Verdict) : SessionM Verdict := do
  note .debug .authorization "authz.decision"
    [("service", request.service), ("rule_id", verdict.ruleId), ("user_id", caller.userId),
     ("target", .text request.target),
      ("authorized", .bool verdict.authorized), ("granted_by", .text verdict.grantedBy)]
  return verdict

/-- A verdict without a rule. -/
def bareVerdict (authorized : Bool) (reason : Reason) : Verdict :=
  ⟨authorized, reason.code, [], .ofMode Scope.none.label, .null⟩

/-! ### Decisions -/

/-- The verdict of the selected rule, remembered for users. -/
def decide (cached : Bool) (request : Request) (method : String) (caller : Caller) (version : Int)
    (rule : Rule) : SessionM Verdict := do
  let stores ← (Policy.storeIdsFor rule (some request.context)).mapError (Failure.numeral "")
  if caller.userId.isNull then evaluate cached rule caller (stores.map .int)
  else
    let s ← current
    let facts :=
      Cache.DecisionFacts.of rule.id (Text.lower request.service.display) method request.target
      caller.userId stores caller.abilities caller.roles caller.permissions
    let key := Cache.decisionKey s.cache.space (.int version) facts
    let payload ← Cache.getOrCompute key (some s.settings.decisionTtl.ttlSeconds) "decision" (do
      return (← evaluate cached rule caller (stores.map .int)).toValue)
    let verdict ← Verdict.read payload
    return verdict

/-- The verdict on a request of a caller. -/
def authorize (cached : Bool) (request : Request) (caller : Caller) : SessionM Verdict := do
  let settings := (← current).settings
  let method ← request.lookupMethod
  if settings.superRoles.any caller.roles.contains then
    noteDecision request caller (bareVerdict true .superRole)
  else
    let version ← (Cache.rulesetVersion : CacheM Int)
    let rules ← findActive request.service (.text method) (.int version)
    reportUnreadable (Rule.unreadable rules request.path request.routeName)
    match ← Rule.select rules request.path request.routeName with
    | none => noteDecision request caller (bareVerdict settings.allowIfNoRule .noRule)
    | some rule =>
      let verdict ← decide cached request method caller version rule
      noteDecision request caller verdict

end AccessControl.Session
