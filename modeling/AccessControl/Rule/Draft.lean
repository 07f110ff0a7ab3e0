import AccessControl.Database.Rows
import AccessControl.Path.Pattern
import AccessControl.Rule.Forms
import AccessControl.Text.Case

/-! # Drafts of rules

A rule is created and changed through a draft, in which every column may still be null.  A change is
applied to the draft in normal form: texts are trimmed, blank ones are null, lists of names hold
each name once, and words are in the case in which they are stored.  `Draft.problems` lists all that
is wrong with the outcome, and `Draft.settle` gives a sound draft its final form: a route replaces
the pattern, and the expression is that of the pattern. -/

namespace AccessControl

open Database

/-! ### Normal forms -/

namespace RuleText

/-- A trimmed text; a blank one is nothing. -/
def trimmed (s : String) : Option String :=
  let t := Text.strip s
  if t = "" then none else some t

/-- A method in capital letters; a blank one is any method. -/
def method (s : String) : String :=
  let m := Text.upper (Text.strip s)
  if m = "" then anyMethod else m

/-- The method in a value: what counts as nothing is any method. -/
def methodOf (v : Value) : Except Failure String :=
  if !v.isTruthy then .ok anyMethod
  else
    match v with
    | .text s => .ok (method s)
    | _ => .error .shape

/-- A word in small letters. -/
def word (s : String) : String := Text.lower (Text.strip s)

/-- The names without white space around them, blank ones left out, each once. -/
def names (given : List String) : List String :=
  Text.distinct ((given.map Text.strip).filter (· != ""))

/-- Names for storage: none at all is null. -/
def storedNames (given : Option (List String)) : Value :=
  match given.map names with
  | none => .null
  | some [] => .null
  | some kept => Value.texts kept

/-- Keys for storage: a bucket that is not given is left out, and no bucket at all is null. -/
def storedSources (given : Option SourceKeys) : Value :=
  match given with
  | none => .null
  | some keys =>
    let buckets :=
      [("path", keys.path), ("query", keys.query), ("body", keys.body)].filterMap fun b =>
      b.2.map fun given => (b.1, Value.texts (names given))
    if buckets.isEmpty then .null else .object buckets

end RuleText

/-! ### Drafts -/

/-- A rule that is being created or changed. -/
structure Draft where
  service : Option String
  method : Option String
  pattern : Option String
  expression : Option String
  routeName : Option String
  rolesAny : Value
  permissionsAny : Value
  permissionsAll : Value
  scope : Option String
  sources : Value
  matching : Option String
  allowsEmpty : Option Bool
  bypassRoles : Value
  bypassPermissions : Value
  isActive : Option Bool
  priority : Option Value

namespace Draft

/-- The draft of a new rule. -/
def empty : Draft where
  service := none
  method := none
  pattern := none
  expression := none
  routeName := none
  rolesAny := .null
  permissionsAny := .null
  permissionsAll := .null
  scope := none
  sources := .null
  matching := none
  allowsEmpty := none
  bypassRoles := .null
  bypassPermissions := .null
  isActive := none
  priority := none

/-- The draft of a stored rule. -/
def ofRow (r : RuleRow) : Draft where
  service := some r.service
  method := some r.method
  pattern := r.pattern
  expression := r.expression
  routeName := r.routeName
  rolesAny := r.rolesAny
  permissionsAny := r.permissionsAny
  permissionsAll := r.permissionsAll
  scope := some r.scope
  sources := r.sources
  matching := some r.matching
  allowsEmpty := some r.allowsEmpty
  bypassRoles := r.bypassRoles
  bypassPermissions := r.bypassPermissions
  isActive := some r.isActive
  priority := some r.priority

/-- The stored rule of a draft, with a number. -/
def toRow (d : Draft) (id : Int) : RuleRow where
  id := id
  service := d.service.getD ""
  method := d.method.getD anyMethod
  pattern := d.pattern
  expression := d.expression
  routeName := d.routeName
  rolesAny := d.rolesAny
  permissionsAny := d.permissionsAny
  permissionsAll := d.permissionsAll
  scope := d.scope.getD Scope.none.word
  sources := d.sources
  matching := d.matching.getD Matching.all.word
  allowsEmpty := d.allowsEmpty.getD false
  bypassRoles := d.bypassRoles
  bypassPermissions := d.bypassPermissions
  isActive := d.isActive.getD true
  priority := d.priority.getD (.int 0)

/-! ### Changes -/

/-- The draft with the named fields of a change in normal form. -/
def apply (d : Draft) (c : RuleChange) : Draft where
  service := c.service.elim d.service (·.bind RuleText.trimmed)
  method := c.method.elim d.method (·.map RuleText.method)
  pattern := c.pattern.elim d.pattern (·.bind RuleText.trimmed)
  expression := d.expression
  routeName := c.routeName.elim d.routeName (·.bind RuleText.trimmed)
  rolesAny := c.rolesAny.elim d.rolesAny RuleText.storedNames
  permissionsAny := c.permissionsAny.elim d.permissionsAny RuleText.storedNames
  permissionsAll := c.permissionsAll.elim d.permissionsAll RuleText.storedNames
  scope := c.scope.elim d.scope (·.map RuleText.word)
  sources := c.sources.elim d.sources RuleText.storedSources
  matching := c.matching.elim d.matching (·.map RuleText.word)
  allowsEmpty := c.allowsEmpty.getD d.allowsEmpty
  bypassRoles := c.bypassRoles.elim d.bypassRoles RuleText.storedNames
  bypassPermissions := c.bypassPermissions.elim d.bypassPermissions RuleText.storedNames
  isActive := c.isActive.getD d.isActive
  priority := c.priority.elim d.priority (·.map .int)

/-- Does a change give the draft another pattern? -/
def changesPattern (d : Draft) (c : RuleChange) : Bool :=
  match c.pattern with
  | some pattern => pattern.bind RuleText.trimmed != d.pattern
  | none => false

/-! ### Problems -/

/-- The problem of a column that must not be null, and is. -/
def nullProblem {α : Type} (name : String) (column : Option α) : List String :=
  if column.isNone then [name ++ " must not be null"] else []

/-- The problem with a word that is none of those allowed. -/
def oneOf (name : String) (allowed : List String) : String :=
  name ++ " must be one of: " ++ String.intercalate ", " (ascendingTexts allowed)

/-- The problem of a column with a word that is none of those allowed. -/
def wordProblem (name : String) (allowed : List String) (column : Option String) : List String :=
  match column with
  | none => []
  | some word =>
    if allowed.contains word then [] else [oneOf name allowed]

/-- Is there a text that is not empty? -/
def isGiven (column : Option String) : Bool := column.any (· != "")

/-- The problems with the columns on their own. -/
def columnProblems (d : Draft) : List String :=
  nullProblem "method" d.method ++ nullProblem "store_scope_mode" d.scope ++
    nullProblem "store_match_policy" d.matching ++ nullProblem "store_allows_empty" d.allowsEmpty ++
    nullProblem "is_active" d.isActive ++ nullProblem "priority" d.priority ++
    (if isGiven d.service then [] else ["service is required"]) ++
      wordProblem "method" methods d.method ++
    wordProblem "store_scope_mode" Scope.words d.scope ++
    wordProblem "store_match_policy" Matching.words d.matching

/-- What a draft is bound to: the problem with it, or the expression of its pattern
when there is no route. -/
def binding (d : Draft) : Except String (Option String) :=
  if isGiven d.routeName then .ok none
  else if !isGiven d.pattern then .error "route_name or path_dsl is required"
  else (Path.compileText (d.pattern.getD "")).mapError Path.PatternError.message

/-- All problems of a draft. -/
def problems (d : Draft) : List String :=
  d.columnProblems ++ match d.binding with
    | .ok _ => []
    | .error problem => [problem]

/-- The final form of a draft, or its problems.  The expression is renewed when the pattern has
changed, or when there is none. -/
def settle (d : Draft) (patternChanged : Bool) : Except (List String) Draft :=
  if !d.problems.isEmpty then .error d.problems
  else if isGiven d.routeName then .ok { d with pattern := none, expression := none }
  else if patternChanged || d.expression.isNone then
    .ok { d with expression := match d.binding with
      | .ok stored => stored
      | .error _ => none }
  else .ok d

end Draft
end AccessControl
