import AccessControl.Text.DigitTable
import AccessControl.Text.Quoted

/-! # Numerals in text

The numeral of a whole number (`natText`, `intText`), runs of ASCII digits, the value of decimal
digits of any script, and the reader of whole numbers `readInt`: white space around, an optional
sign, digits of any script with single underscores between them, and at most `digitLimit` digits.
Around a numeral the separators U+001C to U+001F are no white space. -/

namespace AccessControl.Text

/-! ### Writing -/

/-- A natural number in base ten. -/
def natText (n : Nat) : String := String.ofList (Nat.toDigits 10 n)

/-- A whole number in base ten. -/
def intText (n : Int) : String := if n < 0 then "-" ++ natText n.natAbs else natText n.natAbs

/-! ### Digits -/

/-- Is the character one of the ASCII digits? -/
def isAsciiDigit (c : Char) : Bool := 48 ≤ c.toNat && c.toNat ≤ 57

/-- Is the list a non-empty run of ASCII digits? -/
def isDigitRun (cs : List Char) : Bool := !cs.isEmpty && cs.all isAsciiDigit

/-- The value of a decimal digit of any script. -/
def digitValue (c : Char) : Option Nat :=
  let n := c.toNat
  if n < 0x80 then if isAsciiDigit c then some (n - 48) else none
  else (decimalZeros.find? fun first => first ≤ n && n ≤ first + 9).map (n - ·)

/-- The number that digits denote in base ten, after a number read so far. -/
def ofDigitsFrom (acc : Nat) : List Nat → Nat
  | [] => acc
  | d :: ds => ofDigitsFrom (10 * acc + d) ds

/-- The number that digits denote in base ten. -/
def ofDigits (ds : List Nat) : Nat := ofDigitsFrom 0 ds

/-- The number that a run of ASCII digits denotes. -/
def ofDigitRun (cs : List Char) : Nat := ofDigits (cs.map fun c => c.toNat - 48)

/-- Numerals with more digits than this are neither read nor written. -/
def digitLimit : Nat := 4300

/-- Has a whole number more digits than a numeral may have? -/
def isOverlong (n : Int) : Bool := decide (digitLimit < (Nat.toDigits 10 n.natAbs).length)

/-! ### Whole numbers -/

/-- Why a text is no whole number. -/
inductive NumeralError where
  /-- The text has another form. -/
  | malformed
  /-- The numeral has more than `digitLimit` digits. -/
  | tooLong (digits : Nat)
  deriving DecidableEq, Repr

/-- A message shows this many characters of a text that is no whole number, its quote included. -/
def shownLimit : Nat := 200

/-- The message about a text that is no whole number. -/
def NumeralError.message (text : String) : NumeralError → String
  | .malformed =>
    "invalid literal for int() with base 10: " ++
      String.ofList ((quoted text).toList.take shownLimit)
  | .tooLong digits =>
    "Exceeds the limit (" ++ natText digitLimit ++
      " digits) for integer string conversion: value has "
      ++ natText digits ++ " digits; use sys.set_int_max_str_digits() to increase the limit"

/-- The digits of a run with single underscores between them, and what follows the run.  `none` when
an underscore stands first, last or beside another. -/
def takeDigits : Bool → List Char → Option (List Nat × List Char)
  | afterDigit, [] => if afterDigit then some ([], []) else none
  | afterDigit, c :: cs =>
    match digitValue c with
    | some d => (takeDigits true cs).map fun (ds, rest) => (d :: ds, rest)
    | none =>
      if c = '_' then
        if afterDigit then
          match cs with
          | [] => none
          | next :: _ => if (digitValue next).isSome then takeDigits false cs else none
        else none
      else if afterDigit then some ([], c :: cs) else none

/-- An optional sign and the rest. -/
def takeSign : List Char → Bool × List Char
  | '-' :: cs => (true, cs)
  | '+' :: cs => (false, cs)
  | cs => (false, cs)

/-- The whole number that a text denotes. -/
def readInt (s : String) : Except NumeralError Int :=
  let (negative, body) := takeSign (trim isSpace s.toList)
  match takeDigits false body with
  | none => .error .malformed
  | some (ds, rest) =>
    if digitLimit < ds.length then .error (.tooLong ds.length)
    else if rest.isEmpty then
      .ok (if negative then -(ofDigits ds : Int) else ofDigits ds)
    else .error .malformed

/-- The number that a run of ASCII digits denotes, unless the run is too long. -/
def readDigitRun (cs : List Char) : Except NumeralError Nat :=
  if digitLimit < cs.length then .error (.tooLong cs.length) else .ok (ofDigitRun cs)

end AccessControl.Text
