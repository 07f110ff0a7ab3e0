import AccessControl.Log.Record
import AccessControl.Log.Template
import AccessControl.Settings.Basic
import AccessControl.Time.Calendar
import AccessControl.Value.Integer
import AccessControl.Value.Json

/-! # Log lines

An entry is written on one line for people (`Entry.consoleLine`) or as one JSON object
(`Entry.jsonLine`).  Both hold the time to the millisecond, the level, the logger, the message and
the id that correlates the entries of one request: the id among the extras, or the one that is
bound, or a hyphen.  Extras named like a part of an entry are refused, and those with an
underscore in front are not written.  Nothing is written of an entry that shows a whole number
whose numeral would be too long. -/

namespace AccessControl.Log

/-! ### Entries -/

/-- The value of an extra. -/
inductive Detail where
  | value (v : Value)
  | duration (d : Duration)
  /-- Any other thing, of which a line shows the text; it counts as something or not. -/
  | other (text : String) (counts : Bool)

namespace Detail

/-- Does the extra count as something? -/
def isTruthy : Detail → Bool
  | .value v => v.isTruthy
  | .duration d => d.micros != 0
  | .other _ counts => counts

/-- The text of an extra. -/
def display : Detail → String
  | .value v => v.display
  | .duration d => d.text
  | .other text _ => text

/-- The extra in a JSON object. -/
def toValue : Detail → Value
  | .value v => v
  | .duration d => .text d.text
  | .other text _ => .text text

/-- The extra on a line for people. -/
def shown : Detail → String
  | .value .null => "null"
  | d => d.display

end Detail

/-- What is logged at one time; the parts are kept as they are given. -/
structure Entry where
  logger : Value
  level : Value
  template : String
  arguments : List Value
  seconds : Value
  millis : Value
  extras : List (String × Detail)
  error : Option String
  bound : Value

/-! ### Names -/

/-- The parts of an entry, which no extra may be named after. -/
def partNames : List String :=
  ["name", "msg", "args", "levelname", "levelno", "pathname", "filename", "module", "exc_info",
   "exc_text", "stack_info", "lineno", "funcName", "created", "msecs", "relativeCreated", "thread",
   "threadName", "processName", "process"]

/-- The parts that are made while a line is written, which no extra may be named after either. -/
def madeNames : List String := ["message", "asctime"]

/-- The name of the id that correlates entries. -/
def correlationName : String := "correlation_id"

/-- The extras that are not written as such. -/
def unlistedNames : List String := partNames ++ madeNames ++ [correlationName, "taskName"]

/-- The levels with a name. -/
def namedLevels : List (Int × String) :=
  [(50, "CRITICAL"), (40, "ERROR"), (30, "WARNING"), (20, "INFO"), (10, "DEBUG"), (0, "NOTSET")]

/-- The whole number that a level is equal to. -/
def levelNumber : Value → Option Int
  | .int n => some n
  | .bool b => some (if b then 1 else 0)
  | .float x => if x.isWhole then x.truncate else none
  | _ => none

/-- How a level is shown: a number by its name, and a name by its number. -/
def levelName (level : Value) : Except Failure Value :=
  match (levelNumber level).bind (List.lookup · namedLevels) with
  | some name => .ok (.text name)
  | none =>
    match level with
    | .list _ | .object _ => .error (.type none)
    | .text "WARN" => .ok (.int 30)
    | .text "FATAL" => .ok (.int 50)
    | _ =>
      match level.text?.bind fun name => namedLevels.find? (·.2 == name) with
      | some (n, _) => .ok (.int n)
      | none =>
        if level.isOverlong then .error .overlong else .ok (.text ("Level " ++ level.display))

namespace Entry

/-! ### Parts of a line -/

/-- The first extra with a name that is not allowed. -/
def clash (e : Entry) : Option String :=
  (e.extras.find? fun x => (partNames ++ madeNames).contains x.1).map (·.1)

/-- Three digits of milliseconds. -/
def millisText (millis : Int) : String :=
  if millis < 0 then "-" ++ Duration.padded 2 millis.natAbs else Duration.padded 3 millis.natAbs

/-- The name of an extra that would take the place of the message. -/
def messageName : String := "getMessage"

/-- The message: the template filled with the arguments. -/
def message (e : Entry) : Except Failure String :=
  if (e.extras.lookup messageName).isSome then .error (.type none) else fill e.template e.arguments

/-- The whole seconds since the start of 1970; a fraction is rounded to microseconds first. -/
def unixSeconds (e : Entry) : Except Failure Int :=
  match e.seconds with
  | .int n => .ok n
  | .bool b => .ok (if b then 1 else 0)
  | .float .nan => .error (.value "Invalid value NaN (not a number)")
  | .float (.infinite _) => .error .range
  | .float x => .ok (Duration.roundSeconds x / Duration.perSecond)
  | _ => .error (.type none)

/-- The moment of the entry: the seconds are a number of 64 bits, and the year has four digits at
most.  Beyond those a year is counted in 32 bits. -/
def moment (e : Entry) : Except Failure Moment := do
  let seconds ← e.unixSeconds
  let moment := Moment.ofUnix seconds
  if seconds < -0x8000000000000000 ∨ 0x8000000000000000 ≤ seconds then .error .range
  else if !moment.hasFields then .error .system
  else if Date.isWritable moment.date.year then .ok moment
  else
    let year := moment.date.year.bmod 0x100000000
    .error (.value ("year " ++ Text.intText year ++ " is out of range"))

/-- The time of the entry. -/
def time (e : Entry) : Except Failure String := do
  let moment ← e.moment
  let millis ← e.millis.toInt
  if Text.isOverlong millis then .error .overlong
  else
    return Text.intText moment.date.year ++ Moment.monthAndDayText moment.date ++ "T" ++
      moment.clockText ++ "." ++ millisText millis ++ "Z"

/-- The id that correlates the entry with others. -/
def correlation (e : Entry) : Detail :=
  match (e.extras.lookup correlationName).filter (·.isTruthy) with
  | some d => d
  | none => .value (if e.bound.isTruthy then e.bound else .text "-")

/-- Is the extra written? -/
def isListed (name : String) : Bool := !unlistedNames.contains name && !name.startsWith "_"

/-- The extras that are written, in order. -/
def listed (e : Entry) : List (String × Detail) := e.extras.filter fun x => isListed x.1

/-- The text of the error of the entry. -/
def errorText (text : String) : String := if text = "" then "ValueError" else "ValueError: " ++ text

/-- A text with blanks after it up to a width. -/
def paddedRight (width : Nat) (s : String) : String :=
  s ++ String.ofList (List.replicate (width - s.length) ' ')

/-- Puts an extra before the first one with a greater name. -/
def insertExtra (x : String × Detail) : List (String × Detail) → List (String × Detail)
  | [] => [x]
  | y :: ys => if x.1 ≤ y.1 then x :: y :: ys else y :: insertExtra x ys

/-- Extras by name. -/
def byName (extras : List (String × Detail)) : List (String × Detail) := extras.foldr insertExtra []

/-! ### Lines -/

/-- Is a numeral too long in what a line for people shows beside the level, the time and the
message? -/
def isOverlong (e : Entry) : Bool :=
  e.logger.isOverlong || e.correlation.toValue.isOverlong || e.listed.any (·.2.toValue.isOverlong)

/-- The line for people; an error goes on a line of its own. -/
def consoleLine (e : Entry) : Except Failure String := do
  match e.clash with
  | some name => .error (.missing name)
  | none =>
    let level ← levelName e.level
    let message ← e.message
    let time ← e.time
    let start := time ++ " " ++ paddedRight 5 level.display ++ " " ++ e.logger.display ++
      " [cid=" ++ e.correlation.display ++ "] " ++ message
    let base := match e.error with
      | none => start
      | some text => (if start.endsWith "\n" then start else start ++ "\n") ++ errorText text
    let extras := (byName e.listed).map fun x => x.1 ++ "=" ++ x.2.shown
    if e.isOverlong then .error .overlong
    else return if extras.isEmpty then base else base ++ " " ++ String.intercalate " " extras

/-- The JSON text of an object, unless a numeral in it would be too long. -/
def objectText (fields : Fields) : Except Failure String :=
  if (Value.object fields).isOverlong then .error .overlong else .ok (Value.object fields).toJson

/-- The JSON object; extras named like one of its fields take the place of that field. -/
def jsonLine (e : Entry) : Except Failure String := do
  match e.clash with
  | some name => .error (.missing name)
  | none =>
    let level ← levelName e.level
    let time ← e.time
    let message ← e.message
    let fields : Fields :=
      [("timestamp", .text time), ("level", level), ("service", .text "authz-oracle"),
        ("logger", e.logger), ("message", .text message),
        (correlationName, e.correlation.toValue)]
    let fields := fields.insertAll (e.listed.map fun x => (x.1, x.2.toValue))
    let fields := match e.error with
      | none => fields
      | some text => fields.insert "exc_info" (.text (errorText text))
    objectText fields

/-- The line in a format. -/
def line (format : LogFormat) (e : Entry) : Except Failure String :=
  match format with
  | .console => e.consoleLine
  | .json => e.jsonLine

end Entry

/-! ### Formats and levels of a process -/

/-- The format that a word stands for; any other word stands for lines for people. -/
def formatOf (word : String) : LogFormat := if word = LogFormat.json.word then .json else .console

/-- The level of what the database notes: its statements are noted on demand only. -/
def databaseLevel (settings : Settings) : Level := if settings.databaseEcho then .info else .warning

end AccessControl.Log
