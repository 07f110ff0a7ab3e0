import AccessControl.Numeric.Decimal
import AccessControl.Time.Calendar

/-! # Time stamps

A time stamp is the reading of a clock, with the offset of the clock from universal time when it is
known.  It is written as a date, one of the characters `T`, `t`, `_` and the blank, hours and
minutes, perhaps seconds with a fraction, and perhaps an offset: `Z`, `z`, or a sign, hours and
minutes.  A date alone is midnight, and a number counts the seconds of universal time since the
start of 1970, or the milliseconds when it is large. -/

namespace AccessControl

/-- The reading of a clock, and its offset from universal time in seconds. -/
structure Stamp where
  wall : Moment
  offset : Option Int
  deriving DecidableEq, Repr

namespace Stamp

/-! ### Writing -/

/-- The offset of a clock, in hours and minutes. -/
def offsetText (seconds : Int) : String :=
  let minutes := seconds.natAbs / 60
  if seconds = 0 then "Z"
  else (if seconds < 0 then "-" else "+") ++ Duration.twoDigits (minutes / 60) ++ ":"
    ++ Duration.twoDigits (minutes % 60)

/-- The text of a time stamp. -/
def text (t : Stamp) : String := t.wall.plainText ++ (t.offset.map offsetText).getD ""

/-- Time stamps begin with year 1. -/
def isWritable (t : Stamp) : Bool := Date.isWritable t.wall.date.year

/-! ### Counts since 1970 -/

/-- Counts above this one are milliseconds. -/
def secondsLimit : Nat := 20000000000

/-- The start of year 0, in seconds. -/
def firstSecond : Int := -62167219200

/-- The last second of year 9999. -/
def lastSecond : Int := 253402300799

/-- The time stamp for a count with microseconds added to it. -/
def ofCount (count : Int) (micros : Nat) : Option Stamp :=
  let (seconds, rest) : Int × Int :=
    if count.natAbs ≤ secondsLimit then (count, 0) else (count / 1000, count % 1000 * 1000)
  let total := seconds * Duration.perSecond + rest + micros
  let second := total / Duration.perSecond
  if firstSecond ≤ second ∧ second ≤ lastSecond then
    some ⟨⟨(Moment.ofUnix 0).micros + total⟩, some 0⟩
  else none

/-- The nearest whole number to a quotient, a half upward. -/
def roundUp (num den : Nat) : Nat := (2 * num + den) / (2 * den)

/-- A fraction of a second in microseconds. -/
def microsOf : Double → Nat
  | .finite _ m e => let (n, d) := Double.ratio m e; roundUp n d
  | _ => 0

/-- The time stamp for a number: the count is rounded down, and the digits after the point are
seconds. -/
def ofDouble (x : Double) : Option Stamp := do
  ofCount (← x.floor) (microsOf (x.fraction.scaleBy Duration.perSecond))

/-! ### Numbers in texts -/

/-- The whole number of digits when it is kept in 64 bits. -/
def kept (negative : Bool) (digits : List Char) : Int :=
  let n : Int := Text.ofDigitRun digits
  (if negative then -n else n).bmod 0x10000000000000000

/-- The time stamp for a number with a fraction, which is scaled to seconds first. -/
def ofDecimal (d : Decimal) : Option Stamp := do
  let x := d.toDouble
  let seconds := if (Double.ofInt secondsLimit).magnitudeLess x then x.divideBy 1000 else x
  ofCount (← seconds.floor) (microsOf (seconds.aboveFloor.scaleBy Duration.perSecond))

/-- The time stamp for a number in a text. -/
def readCount (cs : List Char) : Option Stamp :=
  let (negative, body) := Text.takeSign cs
  let whole := body.takeWhile Text.isAsciiDigit
  match whole, body.drop whole.length with
  | [], _ => none
  | _, [] => ofCount (kept negative whole) 0
  | _, '.' :: fraction =>
    if fraction.all Text.isAsciiDigit then
      ofDecimal ⟨negative, Text.ofDigitRun (whole ++ fraction), -(fraction.length : Int)⟩
    else none
  | _, _ => none

/-! ### Dates, clocks and offsets in texts -/

/-- The number of exactly two digits. -/
def twoDigits (a b : Char) : Option Nat :=
  if Text.isDigitRun [a, b] then some (Text.ofDigitRun [a, b]) else none

/-- The date at the start of the characters, and what follows it. -/
def takeDate : List Char → Option (Date × List Char)
  | c :: y :: e :: r :: '-' :: m :: n :: '-' :: d :: f :: rest => do
    let year := (← twoDigits c y) * 100 + (← twoDigits e r)
    let month ← twoDigits m n
    let day ← twoDigits d f
    if 1 ≤ month ∧ month ≤ 12 ∧ 1 ≤ day ∧ day ≤ Date.monthLength year month then
      some (⟨year, month, day⟩, rest)
    else none
  | _ => none

/-- The fraction of a second after its point, in microseconds, and what follows it; the digits after
the sixth are dropped. -/
def takeFraction : List Char → Option (Nat × List Char)
  | c :: cs =>
    if c = '.' ∨ c = ',' then
      let digits := cs.takeWhile Text.isAsciiDigit
      let used := digits.take 6
      if digits.isEmpty then none
      else some (Text.ofDigitRun used * Nat.pow 10 (6 - used.length), cs.drop digits.length)
    else some (0, c :: cs)
  | [] => some (0, [])

/-- The seconds after their colon, in microseconds, and what follows them. -/
def takeSeconds : List Char → Option (Nat × List Char)
  | ':' :: a :: b :: rest => do
    let second ← twoDigits a b
    let (micros, rest) ← takeFraction rest
    if second < 60 then some (second * Duration.perSecond + micros, rest) else none
  | ':' :: _ => none
  | rest => some (0, rest)

/-- The time of day at the start of the characters, in microseconds, and what follows it. -/
def takeClock : List Char → Option (Nat × List Char)
  | a :: b :: ':' :: c :: d :: rest => do
    let hour ← twoDigits a b
    let minute ← twoDigits c d
    let (micros, rest) ← takeSeconds rest
    if hour < 24 ∧ minute < 60 then
      some ((hour * 60 + minute) * 60 * Duration.perSecond + micros, rest)
    else none
  | _ => none

/-- An offset of hours and minutes, in seconds; it is less than a day. -/
def offsetOf (sign : Int) (a b c d : Char) : Option Int := do
  let hours ← twoDigits a b
  let minutes ← twoDigits c d
  if hours < 24 ∧ minutes < 60 then some (sign * ((hours * 60 + minutes) * 60 : Nat)) else none

/-- The sign of an offset. -/
def signOf (c : Char) : Option Int :=
  if c = '+' then some 1 else if c = '-' ∨ c = '−' then some (-1) else none

/-- The offset that the characters form; there may be none. -/
def readOffset : List Char → Option (Option Int)
  | [] => some none
  | ['Z'] | ['z'] => some (some 0)
  | [s, a, b, ':', c, d] => (signOf s).bind fun sign => (offsetOf sign a b c d).map some
  | [s, a, b, c, d] => (signOf s).bind fun sign => (offsetOf sign a b c d).map some
  | _ => none

/-- Does the character stand between a date and a time of day? -/
def separates (c : Char) : Bool := c == 'T' || c == 't' || c == ' ' || c == '_'

/-- The reading of a clock on a date. -/
def wallOf (date : Date) (micros : Nat) : Moment := ⟨date.number * Duration.perDay + micros⟩

/-- The time stamp of a date and perhaps a time of day. -/
def readDated (cs : List Char) : Option Stamp := do
  let (date, rest) ← takeDate cs
  match rest with
  | [] => some ⟨wallOf date 0, none⟩
  | separator :: rest =>
    let (micros, rest) ← takeClock rest
    let offset ← readOffset rest
    if separates separator then some ⟨wallOf date micros, offset⟩ else none

/-- The time stamp that a text denotes. -/
def read (s : String) : Option Stamp := (readDated s.toList).or (readCount s.toList)

end Stamp
end AccessControl
