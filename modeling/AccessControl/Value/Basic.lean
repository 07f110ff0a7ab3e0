import AccessControl.Text.Blank
import AccessControl.Numeric.Double

/-! # Values

Requests, stored configurations and cached entries are made of one kind of value: null, truth
values, whole numbers of any size, floating-point numbers, texts, lists, and objects whose fields
keep their order.  An object is meant to have each name once (`Fields.insert` keeps that), and
equality of values sees the order of the fields. -/

namespace AccessControl

/-- A value of a request, a configuration or a cache entry. -/
inductive Value where
  | null
  | bool (b : Bool)
  | int (n : Int)
  | float (x : Double)
  | text (s : String)
  | list (items : List Value)
  | object (fields : List (String × Value))
  deriving Inhabited, Repr

/-- The fields of an object, in order. -/
abbrev Fields := List (String × Value)

/-! ### Equality -/

mutual
/-- Are two values the same, the order of fields included? -/
def Value.same : Value → Value → Bool
  | .null, .null => true
  | .bool a, .bool b => a == b
  | .int a, .int b => a == b
  | .float a, .float b => a == b
  | .text a, .text b => a == b
  | .list a, .list b => Value.sameItems a b
  | .object a, .object b => Value.sameFields a b
  | _, _ => false
/-- Are two lists of values the same? -/
def Value.sameItems : List Value → List Value → Bool
  | [], [] => true
  | a :: as, b :: bs => a.same b && Value.sameItems as bs
  | _, _ => false
/-- Are two lists of fields the same? -/
def Value.sameFields : List (String × Value) → List (String × Value) → Bool
  | [], [] => true
  | a :: as, b :: bs => a.1 == b.1 && a.2.same b.2 && Value.sameFields as bs
  | _, _ => false
end

instance : BEq Value := ⟨Value.same⟩

/-! ### Fields -/

namespace Fields

/-- The value of a field. -/
def get? (fields : Fields) (name : String) : Option Value := fields.lookup name

/-- Sets a field: in its place when it is there, else at the end. -/
def insert (fields : Fields) (name : String) (value : Value) : Fields :=
  match fields with
  | [] => [(name, value)]
  | f :: rest => if f.1 = name then (f.1, value) :: rest else f :: insert rest name value

/-- Sets fields one after the other. -/
def insertAll (fields more : Fields) : Fields := more.foldl (fun fs (n, v) => fs.insert n v) fields

/-- The fields with every name once, each in the place of its first occurrence with its last
value. -/
def ofPairs (pairs : List (String × Value)) : Fields := insertAll [] pairs

theorem get?_cons (f : String × Value) (fields : Fields) (other : String) :
    get? (f :: fields) other = if other = f.1 then some f.2 else fields.get? other := by
  obtain ⟨n, v⟩ := f
  by_cases h : other = n
  · simp [get?, h]
  · have hb : (other == n) = false := by simpa using h
    simp [get?, List.lookup_cons, hb, h]

theorem get?_insert (fields : Fields) (name other : String) (value : Value) :
    (fields.insert name value).get? other = if other = name then some value
      else fields.get? other := by
  induction fields with
  | nil => rw [insert, get?_cons]
  | cons f rest ih =>
    unfold insert
    by_cases hn : f.1 = name
    · rw [if_pos hn, get?_cons, get?_cons, ← hn]
      by_cases h : other = f.1 <;> simp [h]
    · rw [if_neg hn, get?_cons, ih, get?_cons]
      by_cases h : other = f.1
      · simp [h, hn]
      · simp [h]

end Fields

namespace Value

/-! ### Views -/

/-- Null, false, zero and everything empty count as nothing. -/
def isTruthy : Value → Bool
  | .null => false
  | .bool b => b
  | .int n => n != 0
  | .float x => !x.isZero
  | .text s => !s.isEmpty
  | .list items => !items.isEmpty
  | .object fields => !fields.isEmpty

/-- What is met when the value is walked through: the characters of a text, the items of a list, the
names of an object.  Other values cannot be walked. -/
def elements : Value → Option (List Value)
  | .text s => some (s.toList.map fun c => .text (String.singleton c))
  | .list items => some items
  | .object fields => some (fields.map fun f => .text f.1)
  | _ => none

/-- The fields of an object. -/
def fields? : Value → Option Fields
  | .object fields => some fields
  | _ => none

/-- The text of a text value. -/
def text? : Value → Option String
  | .text s => some s
  | _ => none

/-- The number of a whole-number value. -/
def int? : Value → Option Int
  | .int n => some n
  | _ => none

/-- A field of an object; null when it is not there or there is no object. -/
def field (v : Value) (name : String) : Value :=
  match v with
  | .object fields => (Fields.get? fields name).getD .null
  | _ => .null

/-- Is the value null? -/
def isNull : Value → Bool
  | .null => true
  | _ => false

/-- A list of texts. -/
def texts (names : List String) : Value := .list (names.map .text)

/-- A list of whole numbers. -/
def ints (ns : List Int) : Value := .list (ns.map .int)

/-- A value or null. -/
def ofOption {α : Type} (f : α → Value) : Option α → Value
  | some a => f a
  | none => .null

end Value
end AccessControl
