import AccessControl.Failure
import AccessControl.Value.Basic

/-! # Likeness, order and members

Sets and searches do not tell apart values that stand for one thing: a truth value is the number
zero or one, a whole float is its number, lists are alike item by item, and objects whatever the
order of their fields (`Value.alike`).  Numbers are ordered among themselves, and so are texts, and
lists by their first unlike items (`Value.compare?`); between all other values there is no order.
Lists and objects are members of no set. -/

namespace AccessControl

/-! ### Numbers -/

/-- The number that a value is. -/
inductive Quantity where
  /-- Not a number. -/
  | undefined
  /-- An infinity. -/
  | infinite (negative : Bool)
  /-- A quotient with a positive denominator. -/
  | quotient (num : Int) (den : Nat)
  deriving DecidableEq, Repr

/-- The order of two numbers.  What is not a number comes before nothing, and
nothing comes before it. -/
def Quantity.compare : Quantity → Quantity → Ordering
  | .quotient n d, .quotient k l => Ord.compare (n * l) (k * d)
  | .infinite a, .infinite b => if a = b then .eq else if a then .lt else .gt
  | .infinite a, .quotient _ _ => if a then .lt else .gt
  | .quotient _ _, .infinite b => if b then .gt else .lt
  | .undefined, _ => .gt
  | _, .undefined => .gt

namespace Value

/-- The number that a value is, if it is one; truth values are. -/
def quantity? : Value → Option Quantity
  | .bool b => some (.quotient (if b then 1 else 0) 1)
  | .int n => some (.quotient n 1)
  | .float .nan => some .undefined
  | .float (.infinite negative) => some (.infinite negative)
  | .float (.finite negative m e) =>
    let (n, d) := Double.ratio m e
    some (.quotient (if negative then -(n : Int) else n) d)
  | _ => none

/-- The whole number that a value is alike to. -/
def whole? : Value → Option Int
  | .bool b => some (if b then 1 else 0)
  | .int n => some n
  | .float x => if x.isWhole then x.truncate else none
  | _ => none

/-- The order of two values, if they are numbers. -/
def compareNumbers? (a b : Value) : Option Ordering :=
  match a.quantity?, b.quantity? with
  | some x, some y => some (x.compare y)
  | _, _ => none

/-! ### Likeness -/

mutual
/-- Do two values stand for one thing? -/
def alike : Value → Value → Bool
  | .null, .null => true
  | .text a, .text b => a == b
  | .list a, .list b => alikeItems a b
  | .object a, .object b => a.length == b.length && alikeFields a b
  | .float .nan, .float .nan => true
  | a, b => compareNumbers? a b == some .eq
/-- Are two lists alike item by item? -/
def alikeItems : List Value → List Value → Bool
  | [], [] => true
  | a :: as, b :: bs => a.alike b && alikeItems as bs
  | _, _ => false
/-- Has an object a like field for each of the fields? -/
def alikeFields : List (String × Value) → List (String × Value) → Bool
  | [], _ => true
  | f :: fs, others =>
    (match others.lookup f.1 with
      | some v => f.2.alike v
      | none => false) && alikeFields fs others
end

/-! ### Order -/

mutual
/-- The order of two values, if they have one. -/
def compare? : Value → Value → Option Ordering
  | .text a, .text b => some (Ord.compare a b)
  | .list a, .list b => compareItems? a b
  | a, b => compareNumbers? a b
/-- The order of two lists: that of the first items that are not alike, or else that of the
lengths. -/
def compareItems? : List Value → List Value → Option Ordering
  | [], [] => some .eq
  | [], _ :: _ => some .lt
  | _ :: _, [] => some .gt
  | a :: as, b :: bs => if a.alike b then compareItems? as bs else a.compare? b
end

/-- Does the first value come before the second? -/
def isBefore (a b : Value) : Except Failure Bool :=
  match a.compare? b with
  | some order => .ok (order == .lt)
  | none => .error (.type none)

/-- Puts a value into values in ascending order, before those that are like it. -/
def placeInOrder (v : Value) : List Value → Except Failure (List Value)
  | [] => .ok [v]
  | w :: ws => do
    if ← w.isBefore v then return w :: (← placeInOrder v ws)
    else return v :: w :: ws

/-- Values in ascending order. -/
def inOrder : List Value → Except Failure (List Value)
  | [] => .ok []
  | v :: vs => do placeInOrder v (← inOrder vs)

/-! ### Members -/

/-- A value as a member of a set: equal to every value that is like it. -/
structure Member where
  value : Value

instance : BEq Member := ⟨fun a b => a.value.alike b.value⟩

/-- Can the value be a member of a set? -/
def isScalar : Value → Bool
  | .list _ => false
  | .object _ => false
  | _ => true

/-- Is the value like one of the values? -/
def isAmong (v : Value) (items : List Value) : Bool := items.any v.alike

/-- The value as a member of a set. -/
def toMember (v : Value) : Except Failure Member :=
  if v.isScalar then .ok ⟨v⟩ else .error (.type none)

/-- The values that are met in a collection as members of a set, each once. -/
def members (v : Value) : Except Failure (List Value) :=
  match v.elements with
  | none => .error (.type none)
  | some items =>
    if items.all isScalar then .ok ((Text.distinct (items.map Member.mk)).map Member.value)
    else .error (.type none)

/-- The members of a set in ascending order. -/
def sortedMembers (v : Value) : Except Failure (List Value) := do inOrder (← v.members)

/-- The texts among values. -/
def textsAmong (items : List Value) : List String := items.filterMap text?

end Value
end AccessControl
