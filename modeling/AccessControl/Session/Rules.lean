import AccessControl.Rule.Draft
import AccessControl.Rule.Selection
import AccessControl.Session.State

/-! # The rules of a session

Rules are created, changed, removed, listed and looked up.  Every change raises the version of the
rule set, so that rules and decisions that were remembered before are not found again. -/

namespace AccessControl.Session

open Database

/-! ### Single rules -/

/-- The stored rule with a number. -/
def getRule (key : Value) : SessionM RuleRow := do
  match (← askedKey key).bind (Table.rules.get? (← current).tables) with
  | some row => return row
  | none => throw (.noRule key.display)

/-- The stored rule with a number, taken through its form. -/
def viewRule (key : Value) : SessionM Fields := do
  let row ← getRule key
  let view ← RuleForm.row.read (.object row.toFields)
  return view

/-- Notes a change of a rule. -/
def noteRule (event : String) (details : Fields) : SessionM Unit :=
  note .info .ruleStore ("authz.rules." ++ event ++ ".success") details

/-- Gives a draft its final form; a draft with problems is refused. -/
def settled (d : Draft) (id : Option Int) (patternChanged : Bool) : SessionM Draft := do
  match d.settle patternChanged with
  | .ok d => return d
  | .error problems =>
    note .debug .ruleStore "authz.rules.validation.failed"
      [("service", Value.ofOption .text d.service), ("rule_id", Value.ofOption .int id),
        ("errors", Value.texts problems)]
    throw (.rule problems)

/-! ### Changes -/

/-- Creates a rule. -/
def createRule (c : RuleChange) : SessionM RuleRow := do
  let draft ← settled (Draft.empty.apply c) none true
  let tables := (← current).tables
  let row := draft.toRow (Table.rules.nextId tables)
  let _ ← passed row.priority
  let tables ← Table.rules.insert tables row
  setTables tables
  let _ ← (Cache.bumpVersion : CacheM Int)
  noteRule "create"
    [("service", .text row.service), ("rule_id", .int row.id), ("method", .text row.method)]
  return row

/-- Creates a rule for each of the methods. -/
def createForMethods (c : RuleChange) : List String → SessionM (List RuleRow)
  | [] => return []
  | m :: ms => do
    let row ← createRule { c with method := some (some m) }
    let rows ← createForMethods c ms
    return row :: rows

/-- Creates a rule for each method that is given, each once; without methods, one rule for its
own. -/
def createRules (c : RuleChange) (given : List Value) : SessionM (List RuleRow) := do
  let wanted := Text.distinct (← (given.mapM RuleText.methodOf : Except Failure (List String)))
  if wanted.isEmpty then return [← createRule c]
  else if !wanted.all methods.contains then
    throw (.rule [Draft.oneOf "method" methods])
  else createForMethods c wanted

/-- Changes a rule. -/
def updateRule (key : Value) (c : RuleChange) : SessionM RuleRow := do
  let row ← getRule key
  let draft := Draft.ofRow row
  let draft ← settled (draft.apply c) (some row.id) (draft.changesPattern c)
  let row := draft.toRow row.id
  let _ ← passed row.priority
  setTables (Table.rules.replace (← current).tables row)
  let _ ← (Cache.bumpVersion : CacheM Int)
  noteRule "update"
    [("service", .text row.service), ("rule_id", .int row.id),
     ("fields", Value.texts (ascendingTexts c.names))]
  return row

/-- Removes a rule. -/
def deleteRule (key : Value) : SessionM Unit := do
  let row ← getRule key
  setTables (Table.rules.drop (← current).tables row.id)
  let _ ← (Cache.bumpVersion : CacheM Int)
  noteRule "delete" [("service", .text row.service), ("rule_id", key)]

/-- Makes a rule active or inactive, or for null turns it to the other of these.  The rule is shown
with the value that is given. -/
def toggleRule (key isActive : Value) : SessionM Fields := do
  let row ← getRule key
  let shown : Value := if isActive.isNull then .bool !row.isActive else isActive
  let flag ← flagOf shown
  let row := { row with isActive := flag.getD row.isActive }
  setTables (Table.rules.replace (← current).tables row)
  let _ ← (Cache.bumpVersion : CacheM Int)
  noteRule "toggle" [("service", .text row.service), ("rule_id", .int row.id), ("is_active", shown)]
  return Fields.insert row.toFields "is_active" shown

/-! ### Lists -/

/-- A text that may be missing; nothing at all is none. -/
def givenText (v : Value) : Except Failure (Option String) :=
  match v with
  | .text s => .ok (if s = "" then none else some s)
  | _ => if v.isTruthy then .error .shape else .ok none

/-- A search text, trimmed; null and a blank one ask for nothing. -/
def searchTerm : Value → Except Failure (Option String)
  | .null => .ok none
  | .text s => .ok (RuleText.trimmed s)
  | _ => .error .shape

/-- The stored rules of a service that mention a search text. -/
def listRules (service search : Value) : SessionM (List RuleRow) := do
  let lowered := (← givenText service).map fun s => Text.lower (Text.strip s)
  let term ← searchTerm search
  return (← current).tables.listRules lowered term

/-- The services that have rules. -/
def listServices : SessionM (List String) := do return (← current).tables.services

/-! ### Active rules -/

/-- Notes that the sources of a rule cannot be read. -/
def noteSources (id : Value) (sound : Bool) : SessionM Unit :=
  if sound then return ()
  else
    modifyThe Session fun s =>
      { s with records := s.records ++
        [⟨.warning, .selection, "authz.rules.store_sources.invalid", [("rule_id", id)]⟩] }

/-- The snapshots of stored rules. -/
def snapshots : List RuleRow → SessionM (List Rule)
  | [] => return []
  | row :: rows => do
    let (sources, sound) ← Rule.readSources row.sources
    noteSources (.int row.id) sound
    let rule ← row.toRule sources
    let rules ← snapshots rows
    return rule :: rules

/-- The snapshot in a cached value. -/
def restoreRule (v : Value) : SessionM Rule := do
  let entry ← Rule.Entry.read v
  noteSources entry.id entry.isSound
  let rule ← entry.toRule
  return rule

/-- The snapshots in cached values. -/
def restoreRules : List Value → SessionM (List Rule)
  | [] => return []
  | v :: vs => do
    let rule ← restoreRule v
    let rules ← restoreRules vs
    return rule :: rules

/-- The active rules of a service for a method, or for any method, under a version of the
rule set, which is the present one when null is given.  They come by priority from high to
low, and then by number. -/
def findActive (service method version : Value) : SessionM (List Rule) := do
  match service with
  | .text s =>
    let service := Text.lower (Text.strip s)
    let method ← RuleText.methodOf method
    let version : Value ← if version.isNull then Value.int <$> (Cache.rulesetVersion : CacheM Int)
        else pure version
    let s ← current
    let key := Cache.rulesKey s.cache.space version (.text service) (.text method)
    let payload ← Cache.getOrCompute key (some s.settings.rulesetTtl.ttlSeconds) "ruleset" (do
      let rules ← snapshots ((← current).tables.activeRules service method)
      return .list (rules.map Rule.toValue))
    match payload.elements with
    | some items => restoreRules items
    | none => throw (.type none)
  | _ => throw .shape

/-! ### Trials -/

/-- What a pattern says about a path, without being stored: its expression, whether it accepts the
path, whether it could be compiled, and the problem if not. -/
def trial (pattern path : Value) : Except Failure (Option String × Bool × Bool × Option String) :=
  match Path.compileValue pattern with
  | .error (.pattern problem) => .ok (none, false, false, some problem)
  | .error e => .error e
  | .ok none => .ok (none, false, false, none)
  | .ok (some m) => do return (some m.stored, m.accepts (← Path.pathOf path), true, none)

/-- What a pattern says about a path, taken through its form. -/
def tryPattern (pattern path : Value) : Except Failure Fields := do
  let (expression, accepts, compiled, problem) ← trial pattern path
  RuleForm.trial.read
    (.object [("path_pattern", pattern), ("path_regex", Value.ofOption .text expression),
    ("test_path", path), ("matches", .bool accepts), ("compiled", .bool compiled),
    ("error", Value.ofOption .text problem)])

end AccessControl.Session
