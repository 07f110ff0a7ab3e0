import AccessControl.Rule.Definition
import AccessControl.Value.Member

/-! # Selection of a rule

Of all rules for a service and a method, one decides: the first in order whose route is the one
asked for, or else the first in order that accepts the path.  The order is by priority from high to
low, and by number from low to high among equals.  Rules whose priorities are no numbers, or whose
numbers cannot be compared, have no order. -/

namespace AccessControl.Rule

/-- Does the first rule come before the second? -/
def isBefore (a b : Rule) : Except Failure Bool :=
  if a.priority.alike b.priority then
    if a.id.alike b.id then .ok false else a.id.isBefore b.id
  else b.priority.isBefore a.priority

/-- Puts a rule into ordered rules, before those that stand at its place. -/
def place (rule : Rule) : List Rule → Except Failure (List Rule)
  | [] => .ok [rule]
  | r :: rs => do
    if ← r.isBefore rule then return r :: (← place rule rs)
    else return rule :: r :: rs

/-- Puts rules in order, one after the other from the last. -/
def arrange : List Rule → Except Failure (List Rule)
  | [] => .ok []
  | rule :: rules => do place rule (← arrange rules)

/-- The rules by priority from high to low, then by number. -/
def inOrder (rules : List Rule) : Except Failure (List Rule) :=
  if rules.all fun r => r.priority.quantity?.isSome then arrange rules else .error (.type none)

/-- The first of ordered rules that is bound to the route, for a route that is asked for. -/
def byRoute (ordered : List Rule) (route : Value) : Option Rule :=
  if route.isTruthy then ordered.find? (·.routeName.alike route) else none

/-- The first of ordered rules that accepts the path. -/
def byPath (path : Value) : List Rule → Except Failure (Option Rule)
  | [] => .ok none
  | r :: rs => do
    if ← r.acceptsPath path then return some r
    else byPath path rs

/-- The rule that decides about a path and a route. -/
def select (rules : List Rule) (path route : Value) : Except Failure (Option Rule) := do
  let ordered ← inOrder rules
  match byRoute ordered route with
  | some rule => return some rule
  | none => byPath path ordered

/-! ### Unreadable expressions -/

/-- Is the value a text that is meant as an expression and is none? -/
def isUnreadable (stored : Value) : Bool :=
  match stored with
  | .text s => s != "" && (Regex.read s).isNone
  | _ => false

/-- The texts that are met and are no expressions, until an ordered rule accepts the
path or stops the search. -/
def unreadableUntil (path : Value) : List Rule → List String
  | [] => []
  | r :: rs =>
    match r.acceptsPath path with
    | .ok false =>
      (if !r.hasRoute && isUnreadable r.expression then r.expression.text?.toList else []) ++
        unreadableUntil path rs
    | _ => []

/-- The texts that are met in a selection and are no expressions. -/
def unreadable (rules : List Rule) (path route : Value) : List String :=
  match inOrder rules with
  | .error _ => []
  | .ok ordered => if (byRoute ordered route).isSome then [] else unreadableUntil path ordered

end AccessControl.Rule
