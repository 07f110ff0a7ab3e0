import AccessControl.Schema.Check
import AccessControl.Text.Case
import AccessControl.Text.Numeral

/-! # Coercions

How a value is taken for a text, a whole number, a truth value, a list or an object.  Texts are
taken as they are.  A whole number may be written as a text, with white space around it, a sign,
zeros in front, single underscores between digits, and a fraction of zeros; a whole float of 64 bits
and a truth value are taken as well.  The zeros in front may also stand before a minus sign. -/

namespace AccessControl.Schema

/-! ### Whole numbers in texts -/

/-- A numeral without the zeros in front, the last zero excepted.  Underscores among those zeros are
dropped with them, and a minus sign may follow them. -/
def dropZeros : Option Char → List Char → Option (List Char)
  | none, '0' :: cs => dropZeros (some '0') cs
  | none, c :: cs => if c = '-' ∨ '1' ≤ c ∧ c ≤ '9' then some (c :: cs) else none
  | none, [] => none
  | some last, [] => some [last]
  | some last, c :: cs =>
    if c = '0' ∨ c = '_' then dropZeros (some c) cs
    else if c = '-' ∨ '1' ≤ c ∧ c ≤ '9' then some (c :: cs)
    else if c = '.' then some (last :: c :: cs)
    else none

/-- The characters before a point that is followed by zeros only. -/
def dropFraction (cs : List Char) : List Char :=
  let whole := cs.takeWhile (· != '.')
  let zeros := cs.drop (whole.length + 1)
  if !zeros.isEmpty && zeros.all (· == '0') then whole else cs

/-- The characters without the underscores, which are single and stand between others. -/
def dropUnderscores (cs : List Char) : Option (List Char) :=
  let parts := Text.splitOn '_' cs
  if parts.any List.isEmpty then none else some parts.flatten

/-- The characters without a plus sign in front; there is no other sign after it. -/
def dropPlus : List Char → Option (List Char)
  | '+' :: '-' :: _ => none
  | '+' :: cs => some cs
  | cs => some cs

/-- A numeral in its plain form: a minus sign or none, and digits. -/
def plainNumeral (cs : List Char) : Option (List Char) := do
  let signless ← dropPlus (Text.trim Text.isSpace cs)
  let short ← dropZeros none signless
  dropUnderscores (dropFraction short)

/-- The whole number of a plain numeral.  It has no zero in front of other digits.  One that begins
with too many digits is refused for that, whatever follows them. -/
def readPlain (cs : List Char) : Checked Int :=
  let negative := cs.head? == some '-'
  let body := if negative then cs.drop 1 else cs
  let digits := body.takeWhile Text.isAsciiDigit
  if digits.head? == some '0' then (if body == ['0'] then .ok 0 else .issue "int_parsing")
  else if Text.digitLimit < digits.length + (if negative then 1 else 0) then
    .issue "int_parsing_size"
  else if digits.isEmpty || digits.length < body.length then .issue "int_parsing"
  else
    let n := Text.ofDigitRun digits
    .ok (if negative then -(n : Int) else n)

/-- Does the text begin with more digits than a number may have? -/
def isTooLong (cs : List Char) : Bool :=
  match readPlain cs with
  | .issues found => found.any (·.kind == "int_parsing_size")
  | _ => false

/-- The whole number that a text denotes. -/
def numeral (s : String) : Checked Int :=
  if isTooLong s.toList then .issue "int_parsing_size"
  else ((plainNumeral s.toList).map readPlain).getD (.issue "int_parsing")

/-! ### Kinds of values -/

/-- The value as a text. -/
def text : Value → Checked String
  | .text s => .ok s
  | _ => .issue "string_type"

/-- Is the number one of 64 bits? -/
def isWord (n : Int) : Bool := -0x8000000000000000 ≤ n && n < 0x8000000000000000

/-- The whole number that a float is; the least one of 64 bits is left out. -/
def wholeFloat (x : Double) : Checked Int :=
  match x.truncate with
  | none => .issue "finite_number"
  | some n =>
    if !x.isWhole then .issue "int_from_float"
    else if isWord n && isWord (-n) then .ok n
    else .issue "int_parsing_size"

/-- The value as a whole number. -/
def int : Value → Checked Int
  | .int n => .ok n
  | .bool b => .ok (if b then 1 else 0)
  | .float x => wholeFloat x
  | .text s => numeral s
  | _ => .issue "int_type"

/-- The words for true. -/
def trueWords : List String := ["1", "true", "t", "yes", "y", "on"]

/-- The words for false. -/
def falseWords : List String := ["0", "false", "f", "no", "n", "off"]

/-- The truth value that a whole number stands for. -/
def boolOfInt (n : Int) : Checked Bool :=
  if n = 0 then .ok false else if n = 1 then .ok true else .issue "bool_parsing"

/-- The value as a truth value; a number is a whole one of 64 bits. -/
def bool : Value → Checked Bool
  | .bool b => .ok b
  | .int n => if isWord n then boolOfInt n else .issue "bool_type"
  | .float x =>
    match wholeFloat x with
    | .ok n => boolOfInt n
    | _ => .issue "bool_type"
  | .text s =>
    if trueWords.contains (Text.asciiLower s) then .ok true
    else if falseWords.contains (Text.asciiLower s) then .ok false
    else .issue "bool_parsing"
  | _ => .issue "bool_type"

/-- The value as a list of texts. -/
def texts : Value → Checked (List String)
  | .list items => Checked.all text 0 items
  | _ => .issue "list_type"

/-- The value as an object. -/
def object : Value → Checked Fields
  | .object fields => .ok fields
  | _ => .issue "dict_type"

/-- The value or null. -/
def optional {α : Type} (check : Value → Checked α) : Value → Checked (Option α)
  | .null => .ok none
  | v => (check v).map some

/-! ### Fields -/

/-- A field that has to be there. -/
def required {α : Type} (fields : Fields) (name : String) (check : Value → Checked α) : Checked α :=
  Checked.under (.name name) (match fields.get? name with
    | some v => check v
    | none => .issue "missing")

/-- A field with a value for when it is absent. -/
def withDefault {α : Type} (fields : Fields) (name : String) (check : Value → Checked α)
    (absent : α) :
    Checked α :=
  match fields.get? name with
  | some v => Checked.under (.name name) (check v)
  | none => .ok absent

/-- Refuses fields other than the known ones. -/
def noOthers (fields : Fields) (known : List String) : Checked Unit :=
  match fields.filter fun f => !known.contains f.1 with
  | [] => .ok ()
  | others => .issues (others.map fun f => ⟨[.name f.1], "extra_forbidden", none⟩)

/-- Checks the fields of an object. -/
def model {α : Type} (check : Fields → Checked α) : Value → Checked α
  | .object fields => check fields
  | _ => .issue "model_attributes_type"

end AccessControl.Schema
