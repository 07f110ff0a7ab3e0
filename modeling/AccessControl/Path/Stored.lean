import AccessControl.Failure
import AccessControl.Path.Pattern
import AccessControl.Value.Basic

/-! # Patterns and expressions in values

A pattern and a stored expression may come as any value.  Null is no pattern, and what
counts as nothing is no expression; other values than texts are refused, an expression only
when a path is tried. -/

namespace AccessControl.Path

/-- The matcher for the pattern in a value; `none` for null and for a blank text. -/
def compileValue : Value → Except Failure (Option Matcher)
  | .null => .ok none
  | .text s => (compile s).mapError fun e => .pattern e.message
  | _ => .error .shape

/-- The path in a value. -/
def pathOf : Value → Except Failure String
  | .text path => .ok path
  | _ => .error (.type none)

/-- Does the path have the form that a stored value denotes?  What counts as nothing, and a text
from which no regular expression is read, accepts nothing. -/
def storedMatches (stored path : Value) : Except Failure Bool :=
  if !stored.isTruthy then .ok false
  else
    match stored with
    | .text s =>
      match Regex.read s with
      | some r => r.accepts <$> pathOf path
      | none => .ok false
    | _ => .error (.type none)

end AccessControl.Path
