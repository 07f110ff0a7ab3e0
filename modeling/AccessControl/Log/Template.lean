import AccessControl.Failure
import AccessControl.Numeric.Fixed
import AccessControl.Value.Display

/-! # Message templates

A template is a text with placeholders that arguments fill.  A placeholder is a percent sign, a
name in parentheses when the arguments are the fields of an object, flags, a least width, a point
and a precision, and a letter: `s`, `r` and `a` write any value, `d`, `i` and `u` whole numbers,
`x`, `X` and `o` other bases, `c` a character, and `e`, `f` and `g` floats.  Two percent signs
side by side stand for one. -/

namespace AccessControl.Log

/-! ### Placeholders -/

/-- How a placeholder is written. -/
structure Placeholder where
  left : Bool
  plus : Bool
  blank : Bool
  alternate : Bool
  zero : Bool
  width : Nat
  precision : Option Nat
  deriving Repr

/-- The placeholder without anything between the percent sign and the letter. -/
def Placeholder.bare : Placeholder := ⟨false, false, false, false, false, 0, none⟩

/-- The arguments that are left, and the fields that names are looked up in. -/
structure Arguments where
  pending : List Value
  fields : Option Fields

/-- The arguments of a template: a single object that is not empty gives names. -/
def Arguments.of : List Value → Arguments
  | [.object (f :: fs)] => ⟨[.object (f :: fs)], some (f :: fs)⟩
  | values => ⟨values, none⟩

/-! ### Limits -/

/-- The greatest width that a template can ask for. -/
def widthLimit : Nat := 9223372036854775807

/-- The greatest precision that a template can ask for. -/
def precisionLimit : Nat := 2147483647

/-- Whole numbers have a sign and a mark of their base beside their digits, so their precision stays
below the limit by as much. -/
def wholePrecisionLimit : Nat := precisionLimit - 3

/-- A text of more characters than this cannot be held. -/
def longestText : Nat := 100000000

/-- No binary floating-point number has more digits than this. -/
def digitsOfDouble : Nat := 1100

/-- Filling a template. -/
abbrev Filling := StateT Arguments (Except Failure)

/-- The failure of an argument of the wrong type, and of too few or too many of them. -/
def mismatch : Failure := .type none

/-- Takes the next argument. -/
def nextArgument : Filling Value := do
  match (← get).pending with
  | v :: rest =>
    modify fun a => { a with pending := rest }
    return v
  | [] => throw mismatch

/-! ### Writing one argument -/

/-- A sign and digits, filled up to the width of the placeholder. -/
def filled (p : Placeholder) (sign digits : List Char) (numeric : Bool) :
    Except Failure (List Char) :=
  let missing := p.width - (sign.length + digits.length)
  if longestText < missing then .error .memory
  else if p.left then .ok (sign ++ digits ++ List.replicate missing ' ')
  else if numeric && p.zero then .ok (sign ++ List.replicate missing '0' ++ digits)
  else .ok (List.replicate missing ' ' ++ sign ++ digits)

/-- The sign of a number. -/
def signFor (p : Placeholder) (negative : Bool) : List Char :=
  if negative then ['-'] else if p.plus then ['+'] else if p.blank then [' '] else []

/-- A text, cut to the precision. -/
def textPart (p : Placeholder) (s : String) : Except Failure (List Char) :=
  filled p [] (match p.precision with | some n => s.toList.take n | none => s.toList) false

/-- The text of a value, unless a numeral in it would be too long. -/
def legible (v : Value) (text : String) : Except Failure String :=
  if v.isOverlong then .error .overlong else .ok text

/-- A text with everything outside ASCII escaped. -/
def asciiText (s : String) : String :=
  String.ofList (s.toList.flatMap fun c =>
    if c.toNat < 0x80 then [c]
    else if c.toNat < 0x100 then '\\' :: 'x' :: Text.hexDigits 2 c.toNat
    else if c.toNat < 0x10000 then '\\' :: 'u' :: Text.hexDigits 4 c.toNat
    else '\\' :: 'U' :: Text.hexDigits 8 c.toNat)

/-- A whole number in a base. -/
def wholePart (p : Placeholder) (base : Nat) (lead : List Char) (upper : Bool) (n : Int) :
    Except Failure (List Char) :=
  let ds := Nat.toDigits base n.natAbs
  let ds := if upper then ds.map Char.toUpper else ds
  let missing := p.precision.getD 0 - ds.length
  if wholePrecisionLimit < p.precision.getD 0 then .error .range
  else if base = 10 ∧ Text.isOverlong n then .error .overlong
  else if longestText < missing then .error .memory
  else
    filled p (signFor p (decide (n < 0)) ++ (if p.alternate then lead else []))
      (List.replicate missing '0' ++ ds) true

/-- The whole number that an argument stands for; a float loses its fraction. -/
def wholeOf : Value → Except Failure Int
  | .int n => .ok n
  | .bool b => .ok (if b then 1 else 0)
  | .float x =>
    match x, x.truncate with
    | _, some n => .ok n
    | .nan, none => .error (.value "cannot convert float NaN to integer")
    | _, none => .error .range
  | _ => .error mismatch

/-- The whole number that an argument is. -/
def integerOf : Value → Except Failure Int
  | .float _ => .error mismatch
  | v => wholeOf v

/-- The float that an argument stands for. -/
def floatOf : Value → Except Failure Double
  | .int n =>
    match Double.ofInt n with
    | .infinite _ => .error .range
    | x => .ok x
  | .bool b => .ok (Double.ofInt (if b then 1 else 0))
  | .float x => .ok x
  | _ => .error mismatch

/-- A float, written as the letter says. -/
def floatPart (p : Placeholder) (letter : Char) (x : Double) : Except Failure (List Char) :=
  let places := p.precision.getD 6
  let kind := letter.toLower
  let (negative, digits) : Bool × List Char :=
    match x with
    | .nan => (false, ['n', 'a', 'n'])
    | .infinite negative => (negative, ['i', 'n', 'f'])
    | .finite negative m e =>
      let (n, d) := Double.ratio m e
      (negative,
        if kind = 'f' then Double.fixed places p.alternate n d
        else if kind = 'e' then Double.exponential places p.alternate n d
        else Double.significant (if p.alternate then places else min places digitsOfDouble)
          p.alternate n d)
  let digits := if letter = kind then digits else digits.map Char.toUpper
  filled p (signFor p negative) digits true

/-- The character that an argument stands for. -/
def characterOf : Value → Except Failure Char
  | .text s =>
    match s.toList with
    | [c] => .ok c
    | _ => .error mismatch
  | .float _ => .error mismatch
  | v => do
    let n ← wholeOf v
    if 0 ≤ n ∧ n < 0x110000 then .ok (Char.ofNat n.toNat) else .error .range

/-- An argument, written as the letter at a position of the template says. -/
def written (p : Placeholder) (letter : Char) (position : Nat) (v : Value) :
    Except Failure (List Char) :=
  match letter with
  | 's' => legible v v.display >>= textPart p
  | 'r' => legible v v.quoted >>= textPart p
  | 'a' => legible v (asciiText v.quoted) >>= textPart p
  | 'd' | 'i' | 'u' => wholeOf v >>= wholePart p 10 [] false
  | 'x' => integerOf v >>= wholePart p 16 ['0', 'x'] false
  | 'X' => integerOf v >>= wholePart p 16 ['0', 'X'] true
  | 'o' => integerOf v >>= wholePart p 8 ['0', 'o'] false
  | 'c' => characterOf v >>= fun c => filled p [] [c] false
  | 'e' | 'E' | 'f' | 'F' | 'g' | 'G' => floatOf v >>= floatPart p letter
  | _ =>
    let shown := if 31 ≤ letter.toNat ∧ letter.toNat ≤ 126 then letter else '?'
    .error (.value ("unsupported format character '" ++ String.singleton shown ++ "' (0x"
      ++ String.ofList (Nat.toDigits 16 letter.toNat) ++ ") at index " ++ Text.natText position))

/-! ### Reading placeholders -/

/-- The failure of a template that ends inside a placeholder. -/
def incomplete : Failure := .value "incomplete format"

/-- The name up to the closing parenthesis, inner pairs included, and what follows it. -/
def takeName : Nat → List Char → Option (List Char × List Char)
  | _, [] => none
  | depth, c :: cs =>
    if c = ')' then
      match depth with
      | 0 => some ([], cs)
      | outer + 1 => (takeName outer cs).map fun (name, rest) => (c :: name, rest)
    else (takeName (if c = '(' then depth + 1 else depth) cs).map fun (name, rest) =>
      (c :: name, rest)

/-- Looks up the name at the front of the characters, if there is one: its value is the next
argument. -/
def readName (cs : List Char) : Filling (List Char) := do
  match cs with
  | '(' :: inside =>
    match (← get).fields with
    | none => throw mismatch
    | some fields =>
      match takeName 0 inside with
      | none => throw (.value "incomplete format key")
      | some (name, rest) =>
        match fields.get? (String.ofList name) with
        | none => throw (.missing (String.ofList name))
        | some v =>
          modify fun a => { a with pending := [v] }
          return rest
  | _ => return cs

/-- The flags at the front of the characters. -/
def readFlags (p : Placeholder) : List Char → Placeholder × List Char
  | [] => (p, [])
  | c :: cs =>
    if c = '-' then readFlags { p with left := true } cs
    else if c = '+' then readFlags { p with plus := true } cs
    else if c = ' ' then readFlags { p with blank := true } cs
    else if c = '#' then readFlags { p with alternate := true } cs
    else if c = '0' then readFlags { p with zero := true } cs
    else (p, c :: cs)

/-- The number that a star stands for: the next argument. -/
def readStar : Filling Int := do
  match ← nextArgument with
  | .int n => return n
  | .bool b => return if b then 1 else 0
  | _ => throw mismatch

/-- The digits at the front of the characters; a number above the limit is refused with the text. -/
def readCount (limit : Nat) (refusal : String) (cs : List Char) :
    Filling (Option Nat × List Char) :=
  let digits := cs.takeWhile Text.isAsciiDigit
  let n := Text.ofDigitRun digits
  if digits.isEmpty then return (none, cs)
  else if limit < n then throw (.value refusal)
  else return (some n, cs.drop digits.length)

/-- The width at the front of the characters; a negative one asks for blanks on the right, and the
one without an opposite for none. -/
def readWidth (p : Placeholder) (cs : List Char) : Filling (Placeholder × List Char) := do
  match cs with
  | '*' :: rest =>
    let n ← readStar
    if n < -(widthLimit + 1 : Int) ∨ (widthLimit : Int) < n then throw .range
    return ({ p with
      width := if widthLimit < n.natAbs then 0 else n.natAbs, left :=
      p.left || decide (n < 0) }, rest)
  | _ =>
    let (count, rest) ← readCount widthLimit "width too big" cs
    return ({ p with width := count.getD 0 }, rest)

/-- The precision at the front of the characters; a negative one counts as zero. -/
def readPrecision (p : Placeholder) (cs : List Char) : Filling (Placeholder × List Char) := do
  match cs with
  | '.' :: '*' :: rest =>
    let n ← readStar
    if n < -(precisionLimit + 1 : Int) ∨ (precisionLimit : Int) < n then throw .range
    return ({ p with precision := some n.toNat }, rest)
  | '.' :: rest =>
    let (count, rest) ← readCount precisionLimit "precision too big" rest
    return ({ p with precision := some (count.getD 0) }, rest)
  | _ => return (p, cs)

/-- A letter for a size says nothing. -/
def dropSize : List Char → List Char
  | c :: cs => if c = 'h' ∨ c = 'l' ∨ c = 'L' then cs else c :: cs
  | [] => []

/-- Fills the placeholder after a percent sign.  The result is its text and what follows it; the
length of the template gives positions. -/
def fillOne (length : Nat) (cs : List Char) : Filling (List Char × List Char) := do
  let rest ← readName cs
  let (p, rest) := readFlags .bare rest
  let (p, rest) ← readWidth p rest
  let (p, rest) ← readPrecision p rest
  match dropSize rest with
  | [] => throw incomplete
  | letter :: rest =>
    let v ← nextArgument
    let text ← written p letter (length - rest.length - 1) v
    return (text, rest)

/-- Fills the placeholders of a template.  The count bounds the number of its characters. -/
def fillFrom (length : Nat) : Nat → List Char → Filling (List Char)
  | 0, _ => return []
  | _ + 1, [] => return []
  | fuel + 1, '%' :: '%' :: cs => return '%' :: (← fillFrom length fuel cs)
  | fuel + 1, '%' :: cs => do
    let (text, rest) ← fillOne length cs
    return text ++ (← fillFrom length fuel rest)
  | fuel + 1, c :: cs => return c :: (← fillFrom length fuel cs)

/-- The template with its placeholders filled.  A template without arguments stands for itself, and
an argument that no placeholder takes is a failure. -/
def fill (template : String) (values : List Value) : Except Failure String :=
  if values.isEmpty then .ok template
  else do
    let cs := template.toList
    let (text, left) ← (fillFrom cs.length (cs.length + 1) cs).run (.of values)
    if left.fields.isNone && !left.pending.isEmpty then .error mismatch
    else return String.ofList text

end AccessControl.Log
