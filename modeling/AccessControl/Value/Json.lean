import AccessControl.Numeric.Decimal
import AccessControl.Text.Quoted
import AccessControl.Value.Basic

/-! # JSON text of values

`Value.toJson` writes a value without blanks, in ASCII, with the fields in their own order;
`Value.toSortedJson` sorts the fields of every object by name first.  `Value.ofJson` reads any JSON
text: a number with a fraction or an exponent is a floating-point number and any other is a whole
number, a repeated name keeps its first place and its last value, and the names `NaN`, `Infinity`
and `-Infinity` are numbers. -/

namespace AccessControl.Value

/-! ### Writing -/

/-- One UTF-16 unit as an escape. -/
def unitEscape (n : Nat) : List Char := '\\' :: 'u' :: Text.hexDigits 4 n

/-- A character inside a JSON string. -/
def jsonChar (c : Char) : List Char :=
  if c = '"' then ['\\', '"']
  else if c = '\\' then ['\\', '\\']
  else if c = '\n' then ['\\', 'n']
  else if c = '\r' then ['\\', 'r']
  else if c = '\t' then ['\\', 't']
  else if c = '\x08' then ['\\', 'b']
  else if c = '\x0c' then ['\\', 'f']
  else if 0x20 ≤ c.toNat ∧ c.toNat ≤ 0x7E then [c]
  else if c.toNat < 0x10000 then unitEscape c.toNat
  else
    let n := c.toNat - 0x10000
    unitEscape (0xD800 + n / 0x400) ++ unitEscape (0xDC00 + n % 0x400)

/-- A text as a JSON string. -/
def jsonString (s : String) : List Char := '"' :: s.toList.flatMap jsonChar ++ ['"']

/-- A whole number. -/
def jsonInt (n : Int) : List Char :=
  if n < 0 then '-' :: Nat.toDigits 10 n.natAbs else Nat.toDigits 10 n.natAbs

/-- A floating-point number. -/
def jsonFloat : Double → List Char
  | .nan => "NaN".toList
  | .infinite negative => if negative then "-Infinity".toList else "Infinity".toList
  | x => x.text.toList

mutual
/-- The characters of a value's JSON text. -/
def json : Value → List Char
  | .null => "null".toList
  | .bool true => "true".toList
  | .bool false => "false".toList
  | .int n => jsonInt n
  | .float x => jsonFloat x
  | .text s => jsonString s
  | .list items => '[' :: (jsonItems items ++ [']'])
  | .object fields => '\x7b' :: (jsonFields fields ++ ['\x7d'])
/-- Items with commas between them. -/
def jsonItems : List Value → List Char
  | [] => []
  | [v] => json v
  | v :: vs => json v ++ ',' :: jsonItems vs
/-- Fields with commas between them. -/
def jsonFields : List (String × Value) → List Char
  | [] => []
  | [f] => jsonString f.1 ++ ':' :: json f.2
  | f :: fs => jsonString f.1 ++ ':' :: (json f.2 ++ ',' :: jsonFields fs)
end

/-- The JSON text of a value. -/
def toJson (v : Value) : String := String.ofList v.json

/-- Puts a field before the first one with a greater name. -/
def insertField (f : String × Value) : List (String × Value) → List (String × Value)
  | [] => [f]
  | g :: gs => if f.1 ≤ g.1 then f :: g :: gs else g :: insertField f gs

mutual
/-- The value with the fields of every object sorted by name. -/
def sorted : Value → Value
  | .list items => .list (sortedItems items)
  | .object fields => .object (sortedFields fields)
  | v => v
/-- The items, sorted inside. -/
def sortedItems : List Value → List Value
  | [] => []
  | v :: vs => v.sorted :: sortedItems vs
/-- The fields, sorted inside and by name. -/
def sortedFields : List (String × Value) → List (String × Value)
  | [] => []
  | f :: fs => insertField (f.1, f.2.sorted) (sortedFields fs)
end

/-- The JSON text of a value with sorted fields. -/
def toSortedJson (v : Value) : String := v.sorted.toJson

/-! ### Reading -/

/-- Why a text is no JSON. -/
inductive JsonError where
  /-- The text has another form. -/
  | malformed
  /-- A whole number has too many digits. -/
  | tooLong (digits : Nat)
  deriving DecidableEq, Repr

/-- The characters that may stand between tokens. -/
def isJsonBlank (c : Char) : Bool := c == ' ' || c == '\t' || c == '\n' || c == '\r'

/-- The text without the blanks at its front. -/
def skipBlanks (cs : List Char) : List Char := cs.dropWhile isJsonBlank

/-- The value of a hexadecimal digit. -/
def hexValue (c : Char) : Option Nat :=
  let n := c.toNat
  if 48 ≤ n && n ≤ 57 then some (n - 48)
  else if 97 ≤ n && n ≤ 102 then some (n - 87)
  else if 65 ≤ n && n ≤ 70 then some (n - 55)
  else none

/-- Four hexadecimal digits and the rest. -/
def takeUnit : List Char → Option (Nat × List Char)
  | a :: b :: c :: d :: rest =>
    match hexValue a, hexValue b, hexValue c, hexValue d with
    | some a, some b, some c, some d => some (((a * 16 + b) * 16 + c) * 16 + d, rest)
    | _, _, _, _ => none
  | _ => none

/-- The second half of a surrogate pair, if it is there. -/
def takeLowSurrogate : List Char → Option (Nat × List Char)
  | '\\' :: 'u' :: cs =>
    match takeUnit cs with
    | some (n, rest) => if 0xDC00 ≤ n ∧ n ≤ 0xDFFF then some (n, rest) else none
    | none => none
  | _ => none

/-- The character of an escape after its backslash, and the rest. -/
def takeEscape : List Char → Option (Char × List Char)
  | '"' :: cs => some ('"', cs)
  | '\\' :: cs => some ('\\', cs)
  | '/' :: cs => some ('/', cs)
  | 'b' :: cs => some ('\x08', cs)
  | 'f' :: cs => some ('\x0c', cs)
  | 'n' :: cs => some ('\n', cs)
  | 'r' :: cs => some ('\r', cs)
  | 't' :: cs => some ('\t', cs)
  | 'u' :: cs =>
    match takeUnit cs with
    | none => none
    | some (n, rest) =>
      if 0xD800 ≤ n ∧ n ≤ 0xDBFF then
        match takeLowSurrogate rest with
        | some (low, rest) =>
          some (Char.ofNat (0x10000 + (n - 0xD800) * 0x400 + (low - 0xDC00)), rest)
        | none => some ('\uFFFD', rest)
      else if 0xDC00 ≤ n ∧ n ≤ 0xDFFF then some ('\uFFFD', rest)
      else some (Char.ofNat n, rest)
  | _ => none

/-- The characters up to the closing quote, and what follows it. -/
def takeString : Nat → List Char → Option (List Char × List Char)
  | 0, _ => none
  | _ + 1, [] => none
  | fuel + 1, c :: cs =>
    if c = '"' then some ([], cs)
    else if c = '\\' then
      match takeEscape cs with
      | none => none
      | some (ch, rest) => (takeString fuel rest).map fun (s, after) => (ch :: s, after)
    else if c.toNat < 0x20 then none
    else (takeString fuel cs).map fun (s, after) => (c :: s, after)

/-- A run of ASCII digits and the rest. -/
def spanDigits (cs : List Char) : List Char × List Char :=
  (cs.takeWhile Text.isAsciiDigit, cs.dropWhile Text.isAsciiDigit)

/-- The digits after a point, when there are any, and the rest. -/
def takeFraction (cs : List Char) : Option (List Char) × List Char :=
  match cs with
  | '.' :: rest =>
    let (ds, after) := spanDigits rest
    if ds.isEmpty then (none, cs) else (some ds, after)
  | _ => (none, cs)

/-- The exponent after a mark, when it has digits, and the rest. -/
def takePower (cs : List Char) : Option Int × List Char :=
  match cs with
  | c :: rest =>
    if c = 'e' ∨ c = 'E' then
      let (negative, body) := Text.takeSign rest
      let (ds, after) := spanDigits body
      if ds.isEmpty then (none, cs)
      else
        let n : Int := Text.ofDigitRun ds
        (some (if negative then -n else n), after)
    else (none, cs)
  | [] => (none, [])

/-- The digits before the point: a single zero, or a run that starts with another digit. -/
def takeWhole (cs : List Char) : List Char × List Char :=
  match cs with
  | '0' :: rest => (['0'], rest)
  | _ => spanDigits cs

/-- A number and the rest. -/
def takeNumber (cs : List Char) : Except JsonError (Value × List Char) :=
  let (negative, body) :=
    match cs with
    | '-' :: rest => (true, rest)
    | _ => (false, cs)
  let (whole, rest) := takeWhole body
  if whole.isEmpty then
    if negative && body.take 8 = "Infinity".toList then .ok (.float (.infinite true), body.drop 8)
    else .error .malformed
  else
    let (fraction, rest) := takeFraction rest
    let (power, rest) := takePower rest
    if fraction.isNone && power.isNone then
      if Text.digitLimit < whole.length then .error (.tooLong whole.length)
      else
        let n : Int := Text.ofDigitRun whole
        .ok (.int (if negative then -n else n), rest)
    else
      let ds := fraction.getD []
      let d : Decimal := ⟨negative, Text.ofDigitRun (whole ++ ds), power.getD 0 - ds.length⟩
      .ok (.float d.toDouble, rest)

/-- A word at the front of the text, and the rest. -/
def takeWord (word : String) (v : Value) (cs : List Char) : Except JsonError (Value × List Char) :=
  let w := word.toList
  if cs.take w.length = w then .ok (v, cs.drop w.length) else .error .malformed

mutual
/-- A value at the front of a text without blanks, and the rest. -/
def takeValue : Nat → List Char → Except JsonError (Value × List Char)
  | 0, _ => .error .malformed
  | _ + 1, [] => .error .malformed
  | fuel + 1, c :: cs =>
    if c = '"' then
      match takeString (cs.length + 1) cs with
      | some (s, rest) => .ok (.text (String.ofList s), rest)
      | none => .error .malformed
    else if c = '[' then
      match skipBlanks cs with
      | ']' :: rest => .ok (.list [], rest)
      | cs =>
        match takeItems fuel cs with
        | .ok (items, rest) => .ok (.list items, rest)
        | .error e => .error e
    else if c = '\x7b' then
      match skipBlanks cs with
      | '\x7d' :: rest => .ok (.object [], rest)
      | cs =>
        match takeFields fuel cs with
        | .ok (fields, rest) => .ok (.object (Fields.ofPairs fields), rest)
        | .error e => .error e
    else if c = 'n' then takeWord "null" .null (c :: cs)
    else if c = 't' then takeWord "true" (.bool true) (c :: cs)
    else if c = 'f' then takeWord "false" (.bool false) (c :: cs)
    else if c = 'N' then takeWord "NaN" (.float .nan) (c :: cs)
    else if c = 'I' then takeWord "Infinity" (.float (.infinite false)) (c :: cs)
    else takeNumber (c :: cs)
/-- One item or more up to the closing bracket, and what follows it. -/
def takeItems : Nat → List Char → Except JsonError (List Value × List Char)
  | 0, _ => .error .malformed
  | fuel + 1, cs =>
    match takeValue fuel cs with
    | .error e => .error e
    | .ok (v, rest) =>
      match skipBlanks rest with
      | ',' :: rest =>
        match takeItems fuel (skipBlanks rest) with
        | .ok (vs, after) => .ok (v :: vs, after)
        | .error e => .error e
      | ']' :: rest => .ok ([v], rest)
      | _ => .error .malformed
/-- One field or more up to the closing brace, and what follows it. -/
def takeFields : Nat → List Char → Except JsonError (List (String × Value) × List Char)
  | 0, _ => .error .malformed
  | fuel + 1, cs =>
    match cs with
    | '"' :: cs =>
      match takeString (cs.length + 1) cs with
      | none => .error .malformed
      | some (name, rest) =>
        match skipBlanks rest with
        | ':' :: rest =>
          match takeValue fuel (skipBlanks rest) with
          | .error e => .error e
          | .ok (v, rest) =>
            match skipBlanks rest with
            | ',' :: rest =>
              match takeFields fuel (skipBlanks rest) with
              | .ok (fs, after) => .ok ((String.ofList name, v) :: fs, after)
              | .error e => .error e
            | '\x7d' :: rest => .ok ([(String.ofList name, v)], rest)
            | _ => .error .malformed
        | _ => .error .malformed
    | _ => .error .malformed
end

/-- The value that a JSON text denotes. -/
def ofJson (s : String) : Except JsonError Value :=
  let cs := skipBlanks s.toList
  match takeValue (2 * cs.length + 2) cs with
  | .error e => .error e
  | .ok (v, rest) => if (skipBlanks rest).isEmpty then .ok v else .error .malformed

end AccessControl.Value
