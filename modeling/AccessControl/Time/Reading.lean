import AccessControl.Failure
import AccessControl.Text.Quoted
import AccessControl.Time.Calendar

/-! # Reading moments

A moment is written as a date, one character of any kind, and a time of day, or as a date alone.
Dates are `YYYY-MM-DD`, `YYYYMMDD`, and the week dates `YYYY-Www-D` and `YYYYWwwD`, where the day
may be left out.  Times are `HH`, `HH:MM` and `HH:MM:SS`, or the same without colons, with a
fraction after a point or a comma, and then `Z` or an offset of the same form.  Without an offset
the time is universal, and so it is with an offset of less than a second.  A NUL ends a text, and is
found after a complete number only. -/

namespace AccessControl.Time

/-- Why a text is no moment. -/
inductive ReadError where
  | malformed
  | year (given : Int)
  | month
  | day
  | hour
  | minute
  | second
  | offset (micros : Int)
  | outside
  deriving DecidableEq, Repr

/-! ### Numbers -/

/-- The number that exactly so many digits stand for, and what follows them. -/
def takeNumber (width : Nat) (cs : List Char) : Option (Nat × List Char) :=
  let digits := cs.take width
  if digits.length = width && digits.all Text.isAsciiDigit then
    some (Text.ofDigitRun digits, cs.drop width)
  else none

/-! ### Dates -/

/-- The number of the Monday on which the first week of a year begins: the week of
the fourth of January. -/
def firstMonday (year : Int) : Int :=
  let fourth := (Date.mk year 1 4).number
  fourth - fourth % 7

/-- The date of a day of a week of a year.  The calendar begins with year 1, so a week of year 0
lies in none of its months. -/
def weekDate (year week day : Nat) : Option Date :=
  let start := firstMonday year
  let weeks := if year = 0 then 52 else (firstMonday (year + 1) - start) / 7
  if 1 ≤ week ∧ (week : Int) ≤ weeks ∧ 1 ≤ day ∧ day ≤ 7 then
    some (if year = 0 then ⟨1, 0, 0⟩ else Date.ofNumber (start + 7 * (week - 1) + (day - 1)))
  else none

/-- A date that consists of a week and perhaps a day. -/
def readWeek (year : Nat) (hyphens : Bool) (cs : List Char) : Option Date := do
  let (week, rest) ← takeNumber 2 cs
  let day ← match hyphens, rest with
    | _, [] => some 1
    | true, '-' :: day =>
      (takeNumber 1 day).bind fun (d, rest) => if rest.isEmpty then some d else none
    | false, day => (takeNumber 1 day).bind fun (d, rest) => if rest.isEmpty then some d else none
    | true, _ => none
  weekDate year week day

/-- The date that the characters form. -/
def readDate (cs : List Char) : Option Date := do
  let (year, rest) ← takeNumber 4 cs
  let hyphens := rest.head? == some '-'
  let rest := if hyphens then rest.drop 1 else rest
  match rest with
  | 'W' :: week => readWeek year hyphens week
  | _ =>
    let (month, rest) ← takeNumber 2 rest
    let rest ← match hyphens, rest with
      | true, '-' :: rest => some rest
      | true, _ => none
      | false, rest => some rest
    let (day, rest) ← takeNumber 2 rest
    if rest.isEmpty then some ⟨year, month, day⟩ else none

/-- The length of the date at the start of a text of at least seven characters. -/
def dateLength (cs : List Char) : Nat :=
  let digitAt (i : Nat) : Bool := cs[i]?.any Text.isAsciiDigit
  if cs.length = 7 then 7
  else if cs[4]? == some '-' then
    if cs[5]? == some 'W' then
      if cs[8]? == some '-' then (if digitAt 10 then 8 else 10) else 8
    else 10
  else if cs[4]? == some 'W' then
    let ending := 7 + ((cs.drop 7).takeWhile Text.isAsciiDigit).length
    if ending < 9 then ending else if ending % 2 = 0 then 7 else 8
  else 8

/-! ### Times -/

/-- A time of day as it is written, and whether something was left behind it. -/
structure Clock where
  hour : Nat
  minute : Nat
  second : Nat
  micros : Nat
  rest : Bool

/-- Does a text end before these characters? -/
def isEnd (cs : List Char) : Bool := cs.head?.all (· == '\x00')

/-- A fraction of a second in microseconds; further digits are dropped. -/
def readFraction (cs : List Char) : Option (Nat × Bool) := do
  let width := min 6 cs.length
  if width = 0 then none
  else
    let (n, rest) ← takeNumber width cs
    some (n * Nat.pow 10 (6 - width), !isEnd (rest.dropWhile Text.isAsciiDigit))

/-- The numbers of a time of day, at most a given count of them, then its fraction.  The first
character after the hour tells whether there are colons. -/
def readClock : Nat → Option Bool → List Char → Option (List Nat × Nat × Bool)
  | 0, _, cs => (readFraction cs).map fun (micros, rest) => ([], micros, rest)
  | n + 1, colons, cs => do
    let (value, rest) ← takeNumber 2 cs
    match rest with
    | [] => some ([value], 0, false)
    | c :: more =>
      let colons := colons.getD (c == ':')
      if more.isEmpty && c.toNat < 0x80 then some ([value], 0, c != '\x00')
      else if colons && c == ':' then
        (readClock n (some colons) more).map fun (values, micros, rest) =>
          (value :: values, micros, rest)
      else if c == '.' || c == ',' then
        (readFraction more).map fun (micros, rest) => ([value], micros, rest)
      else if !colons then
        (readClock n (some colons) (c :: more)).map fun (values, micros, rest) =>
          (value :: values, micros, rest)
      else none

/-- The time of day that the characters form. -/
def readTime (cs : List Char) : Option Clock :=
  (readClock 3 none cs).map fun (values, micros, rest) =>
    ⟨values.getD 0 0, values.getD 1 0, values.getD 2 0, micros, rest⟩

/-- The microseconds of a time of day. -/
def Clock.toMicros (c : Clock) : Nat :=
  ((c.hour * 60 + c.minute) * 60 + c.second) * Duration.perSecond + c.micros

/-- The offset that a time of day stands for, in microseconds; less than a second counts as none. -/
def Clock.toOffset (c : Clock) : Nat := if c.toMicros < Duration.perSecond then 0 else c.toMicros

/-- The offset that follows a time of day, in microseconds. -/
def readOffset : List Char → Option Int
  | 'Z' :: cs => if isEnd cs then some 0 else none
  | '+' :: cs => (readTime cs).bind fun c => if c.rest then none else some (c.toOffset : Int)
  | '-' :: cs => (readTime cs).bind fun c => if c.rest then none else some (-(c.toOffset : Int))
  | _ => none

/-- Does the character begin an offset? -/
def beginsOffset (c : Char) : Bool := c == '+' || c == '-' || c == 'Z'

/-- The time of day and the offset, if there is one. -/
def readTimeOfDay (cs : List Char) : Option (Clock × Int) := do
  let clock ← readTime (cs.takeWhile (!beginsOffset ·))
  match cs.dropWhile (!beginsOffset ·) with
  | [] => if clock.rest then none else some (clock, 0)
  | offset => some (clock, ← readOffset offset)

/-! ### Moments -/

/-- The moment of a date, a time and an offset, each within its bounds. -/
def momentOf (date : Date) (clock : Clock) (offset : Int) : Except ReadError Moment :=
  if (Duration.perDay : Int) ≤ offset ∨ offset ≤ -(Duration.perDay : Int) then
    .error (.offset offset)
  else if !Date.isWritable date.year then .error (.year date.year)
  else if date.month < 1 ∨ 12 < date.month then .error .month
  else if date.day < 1 ∨ Date.monthLength date.year date.month < date.day then .error .day
  else if 23 < clock.hour then .error .hour
  else if 59 < clock.minute then .error .minute
  else if 59 < clock.second then .error .second
  else
    let moment : Moment := ⟨date.number * Duration.perDay + clock.toMicros - offset⟩
    if Date.isWritable moment.date.year then .ok moment else .error .outside

/-- The moment that a text denotes. -/
def read (s : String) : Except ReadError Moment :=
  let cs := s.toList
  if cs.length < 7 then .error .malformed
  else
    let length := dateLength cs
    match readDate (cs.take length) with
    | none => .error .malformed
    | some date =>
      if cs.length ≤ length then momentOf date ⟨0, 0, 0, 0, false⟩ 0
      else
        match readTimeOfDay (cs.drop (length + 1)) with
        | none => .error .malformed
        | some (clock, offset) => momentOf date clock offset

/-! ### Messages -/

/-- The parts of an offset of a day or more: days, and then seconds and microseconds
unless they are zero. -/
def offsetText (micros : Int) : String :=
  let days := micros / Duration.perDay
  let rest := (micros % Duration.perDay).toNat
  let part (name : String) (n : Nat) : String :=
    if n = 0 then "" else ", " ++ name ++ "=" ++ Text.natText n
  "datetime.timedelta(days=" ++ Text.intText days ++ part "seconds" (rest / Duration.perSecond)
    ++ part "microseconds" (rest % Duration.perSecond) ++ ")"

/-- The failure of a text that is no moment. -/
def ReadError.toFailure (text : String) : ReadError → Failure
  | .malformed => .value ("Invalid isoformat string: " ++ Text.quoted text)
  | .year given => .value ("year " ++ Text.intText given ++ " is out of range")
  | .month => .value "month must be in 1..12"
  | .day => .value "day is out of range for month"
  | .hour => .value "hour must be in 0..23"
  | .minute => .value "minute must be in 0..59"
  | .second => .value "second must be in 0..59"
  | .offset micros =>
    .value ("offset must be a timedelta strictly between -timedelta(hours=24) and "
      ++ "timedelta(hours=24), not " ++ offsetText micros ++ ".")
  | .outside => .range

end AccessControl.Time
