import AccessControl.Numeric.Duration

/-! # Calendar

Dates of the Gregorian calendar, carried back and forward over all years, and moments of universal
time.  A date is found from its number (`Date.ofNumber`) and the number from the date
(`Date.number`); number zero is the first day of year 1.  A moment is a number of microseconds from
the start of that day. -/

namespace AccessControl

/-- A day of the calendar. -/
structure Date where
  year : Int
  month : Nat
  day : Nat
  deriving DecidableEq, Repr

namespace Date

/-- Has the year a day more? -/
def isLeap (year : Int) : Bool := year % 4 == 0 && (year % 100 != 0 || year % 400 == 0)

/-- The number of days of a month. -/
def monthLength (year : Int) (month : Nat) : Nat :=
  if month = 2 then (if isLeap year then 29 else 28)
  else if [4, 6, 9, 11].contains month then 30
  else 31

/-- The days from year 1 up to the start of a year. -/
def daysBefore (year : Int) : Int :=
  365 * (year - 1) + (year - 1) / 4 - (year - 1) / 100 + (year - 1) / 400

/-- The days of a year before a month. -/
def daysBeforeMonth (year : Int) (month : Nat) : Nat :=
  (List.range (month - 1)).foldr (fun i days => monthLength year (i + 1) + days) 0

/-- The number of a date. -/
def number (d : Date) : Int := daysBefore d.year + daysBeforeMonth d.year d.month + d.day - 1

/-- The year in which a day lies. -/
def yearOf (number : Int) : Int :=
  let era := number / 146097
  let inEra := number % 146097
  let century := min 3 (inEra / 36524)
  let inCentury := inEra - century * 36524
  let cycle := inCentury / 1461
  let inCycle := inCentury % 1461
  400 * era + 100 * century + 4 * cycle + min 3 (inCycle / 365) + 1

/-- The month and the day of the month, for a count of days that are left from the start of a
month. -/
def inMonths (year : Int) : List Nat → Nat → Nat × Nat
  | [], left => (12, left + 1)
  | month :: later, left =>
    if left < monthLength year month then (month, left + 1)
    else inMonths year later (left - monthLength year month)

/-- The months in order. -/
def months : List Nat := [1, 2, 3, 4, 5, 6, 7, 8, 9, 10, 11, 12]

/-- The date with a number. -/
def ofNumber (number : Int) : Date :=
  let year := yearOf number
  let (month, day) := inMonths year months (number - daysBefore year).toNat
  ⟨year, month, day⟩

/-- The first years that can be written are 1 and the last 9999. -/
def isWritable (year : Int) : Bool := 1 ≤ year && year ≤ 9999

end Date

/-- A moment of universal time, in microseconds from the start of year 1. -/
structure Moment where
  micros : Int
  deriving DecidableEq, Repr

namespace Moment

/-- The number of the first of January 1970. -/
def unixDay : Int := 719162

/-- The moment that lies a number of seconds after the start of 1970. -/
def ofUnix (seconds : Int) : Moment := ⟨unixDay * Duration.perDay + seconds * Duration.perSecond⟩

/-- The moments whose year, counted from 1900, is a number of 32 bits can be taken apart. -/
def hasFields (m : Moment) : Bool :=
  let year := (Date.ofNumber (m.micros / Duration.perDay)).year - 1900
  year < 0x80000000 && -0x80000000 ≤ year

/-- The day in which the moment lies. -/
def date (m : Moment) : Date := .ofNumber (m.micros / Duration.perDay)

/-- The microseconds since the start of the day. -/
def inDay (m : Moment) : Nat := (m.micros % Duration.perDay).toNat

/-- Hours, minutes and seconds with colons. -/
def clockText (m : Moment) : String :=
  let seconds := m.inDay / Duration.perSecond
  Duration.twoDigits (seconds / 3600) ++ ":" ++ Duration.twoDigits (seconds / 60 % 60) ++ ":"
    ++ Duration.twoDigits (seconds % 60)

/-- Month and day with a hyphen before each. -/
def monthAndDayText (d : Date) : String :=
  "-" ++ Duration.twoDigits d.month ++ "-" ++ Duration.twoDigits d.day

/-- Date and time to the second or microsecond. -/
def plainText (m : Moment) : String :=
  let micros := m.inDay % Duration.perSecond
  Duration.padded 4 m.date.year.toNat ++ monthAndDayText m.date ++ "T" ++ m.clockText
    ++ (if micros = 0 then "" else "." ++ Duration.padded 6 micros)

/-- Date, time to the second or microsecond, and the offset of universal time. -/
def text (m : Moment) : String := m.plainText ++ "+00:00"

end Moment
end AccessControl
