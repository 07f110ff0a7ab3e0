import AccessControl.Failure
import AccessControl.Order
import AccessControl.Value.Basic

/-! # Callers

A caller is what a request is decided for: a user or nobody in particular, with global roles, global
permissions and the abilities of the token.  Names are trimmed, blank ones are dropped, and each set
is kept in ascending order.  No abilities at all means that the token is not restricted. -/

namespace AccessControl

/-- Who asks.  The user is null for nobody in particular. -/
structure Caller where
  userId : Value
  roles : List String
  permissions : List String
  abilities : List String
  deriving BEq

namespace Caller

/-- Trimmed names without blank ones, as a set. -/
def cleanNames (names : List String) : List String :=
  ascendingTexts ((names.map Text.strip).filter (· != ""))

/-- The caller with the given names. -/
def ofNames (userId : Value) (roles permissions abilities : List String) : Caller :=
  ⟨userId, cleanNames roles, cleanNames permissions, cleanNames abilities⟩

/-- The texts among values; values that count as nothing are left out. -/
def nameTexts : List Value → Except Failure (List String)
  | [] => .ok []
  | v :: vs =>
    if !v.isTruthy then nameTexts vs
    else
      match v with
      | .text s => (nameTexts vs).map (s :: ·)
      | _ => .error .shape

/-- The names in a value; nothing at all holds no names. -/
def readNames (v : Value) : Except Failure (List String) :=
  if !v.isTruthy then .ok []
  else
    match v.elements with
    | some items => nameTexts items
    | none => .error (.type none)

/-- The facts that an object may state about a caller. -/
def fieldNames : List String := ["user_id", "roles", "permissions", "abilities"]

/-- The fields of a caller; nothing at all has none. -/
def readFields (data : Value) : Except Failure Fields :=
  match data with
  | .object fields =>
    if fields.all (fieldNames.contains ·.1) then .ok fields else .error (.type none)
  | _ => if data.isTruthy then .error (.type none) else .ok []

/-- The caller that a value describes. -/
def read (data : Value) : Except Failure Caller := do
  let fields ← readFields data
  let field (name : String) : Value := (fields.get? name).getD .null
  let roles ← readNames (field "roles")
  let permissions ← readNames (field "permissions")
  let abilities ← readNames (field "abilities")
  return ofNames (field "user_id") roles permissions abilities

/-- The caller as an object. -/
def toValue (c : Caller) : Value :=
  .object [("user_id", c.userId), ("roles", Value.texts c.roles),
    ("permissions", Value.texts c.permissions), ("abilities", Value.texts c.abilities)]

end Caller
end AccessControl
