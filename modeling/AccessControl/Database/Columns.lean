import AccessControl.Failure
import AccessControl.Numeric.Fixed
import AccessControl.Value.Member

/-! # Columns

How values come into columns, and how they are compared with them.  A column for numbers turns every
value that reads as a number into one, and keeps any other text as it is; a column for texts writes
numbers as texts; a column for truth values takes the numbers zero and one; a column for data takes
everything, and treats a bare number like a column for numbers.  Lists and objects can only be data,
and whole numbers must fit into 64 bits. -/

namespace AccessControl.Database

/-! ### Passing values -/

/-- Does the number fit into a column? -/
def fits (n : Int) : Bool := -0x8000000000000000 ≤ n && n < 0x8000000000000000

/-- The number, if it fits into a column. -/
def bound (n : Int) : Except Failure Int := if fits n then .ok n else .error .range

/-- A value as it is passed to the database. -/
def passed : Value → Except Failure Value
  | .bool b => .ok (.int (if b then 1 else 0))
  | .int n => .int <$> bound n
  | .float .nan => .ok .null
  | .list _ => .error .unbindable
  | .object _ => .error .unbindable
  | v => .ok v

/-! ### Numbers -/

/-- The blanks that may stand around a number. -/
def isColumnBlank (c : Char) : Bool := c == ' ' || (0x9 ≤ c.toNat && c.toNat ≤ 0xD)

/-- The characters of numbers. -/
def isNumberChar (c : Char) : Bool := Text.isAsciiDigit c || ['+', '-', '.', 'e', 'E'].contains c

/-- A float in a column for numbers: a whole number when it is one inside the range. -/
def wholeOrFloat (x : Double) : Value :=
  match (if x.isWhole then x.truncate else none) with
  | some n => if -0x8000000000000000 < n && n < 0x7fffffffffffffff then .int n else .float x
  | none => .float x

/-- A text in a column for numbers: the number that it reads as, if it does. -/
def numberOrText (s : String) : Value :=
  let cs := Text.trim isColumnBlank s.toList
  match (if cs.all isNumberChar then Double.read (String.ofList cs) else none) with
  | none => .text s
  | some x =>
    let (negative, digits) := Text.takeSign cs
    let n : Int := if negative then -(Text.ofDigitRun digits : Int) else Text.ofDigitRun digits
    if Text.isDigitRun digits && fits n then .int n else wholeOrFloat x

/-- A passed value in a column for numbers. -/
def asNumber : Value → Value
  | .float x => wholeOrFloat x
  | .text s => numberOrText s
  | v => v

/-- The whole number with which a column is compared; `none` when no column can hold it. -/
def asked (v : Value) : Except Failure (Option Int) := do return (asNumber (← passed v)).whole?

/-- The number by which a row is asked for.  A key may also come as a list of one
value, or under its name. -/
def askedKey : Value → Except Failure (Option Int)
  | .list [v] => if v.isScalar then asked v else .error (.type none)
  | .list _ => .error .malformedKey
  | .object [(name, v)] =>
    if name != "id" then .error .malformedKey
    else if v.isScalar then asked v
    else .error (.type none)
  | .object _ => .error .malformedKey
  | v => asked v

/-- The number that a column for the number of another row is set to. -/
def reference (v : Value) : Except Failure Int := do
  match ← asked v with
  | some n => return n
  | none => .error .conflict

/-! ### Texts -/

/-- The digits that a float has in a column for texts. -/
def textDigits : Nat := 15

/-- A number with a point in it. -/
def withPoint (cs : List Char) : List Char :=
  let whole := cs.takeWhile (· != 'e')
  (if whole.contains '.' then whole else whole ++ ['.', '0']) ++ cs.dropWhile (· != 'e')

/-- The text of a float in a column for texts. -/
def floatText : Double → String
  | .nan => ""
  | .infinite negative => if negative then "-Inf" else "Inf"
  | .finite negative m e =>
    let (n, d) := Double.ratio m e
    let sign := if negative && m != 0 then ['-'] else []
    String.ofList (sign ++ withPoint (Double.significant textDigits false n d))

/-- A passed value in a column for texts. -/
def asText : Value → Value
  | .int n => .text (Text.intText n)
  | .float x => .text (floatText x)
  | v => v

/-- The text with which a column is compared; `none` when no column can hold it. -/
def askedText (v : Value) : Except Failure (Option String) := do return (asText (← passed v)).text?

/-! ### Data -/

/-- A value in a column for data: a bare number goes in as its text does in a column for numbers. -/
def asData : Value → Value
  | .int n => numberOrText (Text.intText n)
  | .float x => wholeOrFloat x
  | v => v

/-! ### Truth values -/

/-- The truth value that a column is set to; `none` for null. -/
def flagOf (v : Value) : Except Failure (Option Bool) :=
  if v.isNull then .ok none
  else
    match v.whole? with
    | some 0 => .ok (some false)
    | some 1 => .ok (some true)
    | _ => .error .unfit

/-- The truth value that a column of a new row is set to: null stands for the usual one. -/
def newFlag (v : Value) (usual : Bool) : Except Failure Bool := (·.getD usual) <$> flagOf v

/-! ### Columns -/

/-- What a column holds. -/
inductive ColumnKind where
  | number
  | text
  | flag
  | data
  /-- A moment of the clock, which is set by itself. -/
  | moment
  deriving DecidableEq, Repr

/-- What a column of a kind holds after it is set to a value. -/
def ColumnKind.store : ColumnKind → Value → Except Failure Value
  | number, v => asNumber <$> passed v
  | text, v => asText <$> passed v
  | flag, v => Value.ofOption .bool <$> flagOf v
  | data, v => .ok (asData v)
  | moment, v => if v.isNull then .ok .null else .error .unfit

/-- Is a value of the kind refused before anything is passed to the database? -/
def ColumnKind.isChecked : ColumnKind → Bool
  | flag => true
  | moment => true
  | _ => false

/-- A column: its name, what it holds, whether it may be null, and the value that stands in for
none. -/
structure Column where
  name : String
  kind : ColumnKind
  nullable : Bool
  standing : Value

namespace Column

/-- A column that must be set. -/
def required (name : String) (kind : ColumnKind) : Column := ⟨name, kind, false, .null⟩

/-- A column that may be null. -/
def optional (name : String) (kind : ColumnKind) : Column := ⟨name, kind, true, .null⟩

/-- A column with a value that stands in for none. -/
def usual (name : String) (kind : ColumnKind) (standing : Value) : Column :=
  ⟨name, kind, false, standing⟩

/-- The columns for the times of a row. -/
def times : List Column := [required "created_at" .moment, required "updated_at" .moment]

/-- What the columns hold after they are set to values.  What is refused for its
kind is refused first. -/
def storeAll (columns : List (Column × Value)) : Except Failure Fields := do
  let _ ← (columns.filter fun c => c.1.kind.isChecked).mapM fun c => c.1.kind.store c.2
  columns.mapM fun c => do return (c.1.name, ← c.1.kind.store c.2)

/-- The columns of a new row with the values that are given, or else those that stand in for
them. -/
def filled (columns : List Column) (given : Fields) : List (Column × Value) :=
  columns.map fun c =>
    match given.get? c.name with
    | some .null => (c, c.standing)
    | some v => (c, v)
    | none => (c, c.standing)

/-- The columns that are given values. -/
def named (columns : List Column) (given : Fields) : List (Column × Value) :=
  columns.filterMap fun c => (given.get? c.name).map fun v => (c, v)

end Column

/-! ### Reading columns -/

/-- The whole number in a column. -/
def numberIn (stored : Fields) (name : String) : Except Failure Int :=
  match stored.get? name with
  | some (.int n) => .ok n
  | _ => .error .conflict

/-- The value in a column that is not null. -/
def valueIn (stored : Fields) (name : String) : Except Failure Value :=
  match stored.get? name with
  | none => .error .conflict
  | some .null => .error .conflict
  | some v => .ok v

/-- The text in a column. -/
def textIn (stored : Fields) (name : String) : Except Failure String :=
  match stored.get? name with
  | some (.text s) => .ok s
  | _ => .error .conflict

/-- The truth value in a column. -/
def flagIn (stored : Fields) (name : String) : Except Failure Bool :=
  match stored.get? name with
  | some (.bool b) => .ok b
  | _ => .error .conflict

/-- The text in a column that may be null. -/
def textIn? (stored : Fields) (name : String) : Option String := (stored.get? name).bind Value.text?

/-- The value in a column that may be null. -/
def dataIn (stored : Fields) (name : String) : Value := (stored.get? name).getD .null

/-! ### Order -/

/-- Does the value of a column for numbers come before another one?  Numbers come before texts. -/
def isLower (a b : Value) : Bool :=
  match a, b with
  | .text s, .text t => s < t
  | .text _, _ => false
  | _, .text _ => true
  | _, _ => Value.compareNumbers? a b == some .lt

end AccessControl.Database
