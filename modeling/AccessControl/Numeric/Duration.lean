import AccessControl.Numeric.Double
import AccessControl.Text.Numeral

/-! # Durations

A duration is a whole number of microseconds of less than a thousand million days either way.
`Duration.ofSeconds` rounds seconds to it, a half to the even neighbour: the whole seconds are
exact, and the rest is multiplied by a million first. -/

namespace AccessControl

/-- A number of microseconds. -/
structure Duration where
  micros : Int
  deriving DecidableEq, Repr

namespace Duration

/-- Microseconds of a second. -/
def perSecond : Nat := 1000000

/-- Microseconds of a day. -/
def perDay : Nat := 86400 * perSecond

/-- Durations are below this number of days. -/
def dayLimit : Nat := 1000000000

/-- The duration of whole seconds. -/
def seconds (n : Int) : Duration := ⟨n * perSecond⟩

/-- Why a number of seconds is no duration. -/
inductive RangeError where
  | notANumber
  | tooLong
  deriving DecidableEq, Repr

/-! ### Rounding -/

/-- A number of microseconds with a fraction of one added, a half to the even neighbour. -/
def addFraction (micros : Int) (rest : Double) : Int :=
  match rest with
  | .finite negative m e =>
    let (n, d) := Double.ratio m e
    let up := decide (d < 2 * n) || (2 * n == d && micros % 2 != 0)
    if up then (if negative then micros - 1 else micros + 1) else micros
  | _ => micros

/-- A finite number of seconds in microseconds. -/
def roundSeconds (x : Double) : Int :=
  let whole := (x.truncate.getD 0) * perSecond
  let rest := x.fraction.scaleBy perSecond
  addFraction (whole + rest.truncate.getD 0) rest.fraction

/-- The duration of a number of microseconds, which lies on a day from the least to the greatest. -/
def ofMicros (micros : Int) : Except RangeError Duration :=
  let days := micros / perDay
  if -(dayLimit : Int) < days ∧ days < dayLimit then .ok ⟨micros⟩ else .error .tooLong

/-- The duration of a number of seconds. -/
def ofSeconds (x : Double) : Except RangeError Duration :=
  match x with
  | .nan => .error .notANumber
  | .infinite _ => .error .tooLong
  | .finite negative m e => ofMicros (roundSeconds (.finite negative m e))

/-! ### Views -/

/-- The duration in seconds. -/
def toSeconds (d : Duration) : Double :=
  Double.ofRatio (decide (d.micros < 0)) d.micros.natAbs perSecond

/-- Whole seconds for a cache, never below one. -/
def ttlSeconds (d : Duration) : Int := max 1 (d.toSeconds.truncate.getD 0)

/-- A number below a hundred with two digits. -/
def twoDigits (n : Nat) : String := if n < 10 then "0" ++ Text.natText n else Text.natText n

/-- Digits with zeros in front up to a width. -/
def padded (width n : Nat) : String :=
  String.ofList (List.replicate (width - (Text.natText n).length) '0') ++ Text.natText n

/-- The days, then hours, minutes and seconds, and microseconds when there are any. -/
def text (d : Duration) : String :=
  let days := d.micros / perDay
  let rest := (d.micros % perDay).toNat
  let secs := rest / perSecond
  let dayPart :=
    if days = 0 then ""
    else Text.intText days ++ (if days.natAbs = 1 then " day, " else " days, ")
  let clock :=
    Text.natText (secs / 3600) ++ ":" ++ twoDigits (secs / 60 % 60) ++ ":" ++ twoDigits (secs % 60)
  let micros := rest % perSecond
  dayPart ++ clock ++ (if micros = 0 then "" else "." ++ padded 6 micros)

end Duration
end AccessControl
