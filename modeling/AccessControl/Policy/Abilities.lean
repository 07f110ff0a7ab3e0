import AccessControl.Value.Member

/-! # Abilities

The abilities of a token restrict what its bearer may use of the permissions that are held.  A token
without abilities is not restricted, and neither is one with the wildcard among them (`allowance`).
The same questions can be put to collections of any values (`coversAnyOf`, `coversAllOf`). -/

namespace AccessControl.Policy

/-! ### Names -/

section

variable {α : Type} [BEq α]

/-- The permissions that a token allows: all (`none`), or those in a list. -/
def allowance (wildcard : α) (abilities : List α) : Option (List α) :=
  if abilities.isEmpty || abilities.contains wildcard then none else some abilities

/-- Is one of the permissions allowed? -/
def allowsAny (allowed : Option (List α)) (permissions : List α) : Bool :=
  allowed.all fun names => permissions.any names.contains

/-- Are all of the permissions allowed? -/
def allowsAll (allowed : Option (List α)) (permissions : List α) : Bool :=
  allowed.all fun names => permissions.all names.contains

/-- Do the abilities of a token allow one of the permissions? -/
def coversAny (wildcard : α) (abilities permissions : List α) : Bool :=
  allowsAny (allowance wildcard abilities) permissions

/-- Do the abilities of a token allow all of the permissions? -/
def coversAll (wildcard : α) (abilities permissions : List α) : Bool :=
  allowsAll (allowance wildcard abilities) permissions

end

/-! ### Any values -/

/-- What a token with the abilities in a value allows. -/
def allowanceOf (wildcard abilities : Value) : Except Failure (Option (List Value)) := do
  let members ← abilities.members
  if members.isEmpty then return none
  else if !wildcard.isScalar then .error (.type none)
  else return if wildcard.isAmong members then none else some members

/-- Is one of the values among the members?  The search ends at the first that is. -/
def meetsSome (members : List Value) : List Value → Except Failure Bool
  | [] => .ok false
  | v :: vs =>
    if !v.isScalar then .error (.type none)
    else if v.isAmong members then .ok true
    else meetsSome members vs

/-- Are all of the values among the members?  The search ends at the first that is not. -/
def meetsEvery (members : List Value) : List Value → Except Failure Bool
  | [] => .ok true
  | v :: vs =>
    if !v.isScalar then .error (.type none)
    else if v.isAmong members then meetsEvery members vs
    else .ok false

/-- What is met in a collection. -/
def elementsOf (v : Value) : Except Failure (List Value) :=
  match v.elements with
  | some items => .ok items
  | none => .error (.type none)

/-- Do the abilities in a value allow one of the permissions in another? -/
def coversAnyOf (wildcard abilities permissions : Value) : Except Failure Bool := do
  match ← allowanceOf wildcard abilities with
  | none => return true
  | some members => meetsSome members (← elementsOf permissions)

/-- Do the abilities in a value allow all of the permissions in another? -/
def coversAllOf (wildcard abilities permissions : Value) : Except Failure Bool := do
  match ← allowanceOf wildcard abilities with
  | none => return true
  | some members => meetsEvery members (← elementsOf permissions)

end AccessControl.Policy
