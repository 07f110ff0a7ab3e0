import AccessControl.Numeric.Decimal
import AccessControl.Text.Numeral
import AccessControl.Value.Basic

/-! # Display text of values

How a value reads inside a message or a log line: a text stands for itself, but inside a list or
an object it is quoted; null is `None`, the truth values are `True` and `False`, and numbers
have their shortest text.  A value with a whole number in it whose numeral would be too long has
no text (`isOverlong`). -/

namespace AccessControl.Value

mutual
/-- The text of a value inside another one. -/
def quoted : Value → String
  | .null => "None"
  | .bool true => "True"
  | .bool false => "False"
  | .int n => Text.intText n
  | .float x => x.text
  | .text s => Text.quoted s
  | .list items => "[" ++ quotedItems items ++ "]"
  | .object fields => "\x7b" ++ quotedFields fields ++ "\x7d"
/-- Items with commas between them. -/
def quotedItems : List Value → String
  | [] => ""
  | [v] => quoted v
  | v :: vs => quoted v ++ ", " ++ quotedItems vs
/-- Fields with commas between them. -/
def quotedFields : List (String × Value) → String
  | [] => ""
  | [f] => Text.quoted f.1 ++ ": " ++ quoted f.2
  | f :: fs => Text.quoted f.1 ++ ": " ++ quoted f.2 ++ ", " ++ quotedFields fs
end

/-- The text of a value on its own. -/
def display : Value → String
  | .text s => s
  | v => v.quoted

mutual
/-- Is there a whole number in the value whose numeral would be too long? -/
def isOverlong : Value → Bool
  | .int n => Text.isOverlong n
  | .list items => anyOverlong items
  | .object fields => anyOverlongField fields
  | _ => false
/-- Is there such a number in one of the items? -/
def anyOverlong : List Value → Bool
  | [] => false
  | v :: vs => isOverlong v || anyOverlong vs
/-- Is there such a number in one of the fields? -/
def anyOverlongField : List (String × Value) → Bool
  | [] => false
  | f :: fs => isOverlong f.2 || anyOverlongField fs
end

end AccessControl.Value
