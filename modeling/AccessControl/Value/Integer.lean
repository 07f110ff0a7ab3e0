import AccessControl.Failure
import AccessControl.Numeric.Duration
import AccessControl.Value.Basic

/-! # Whole numbers in values

The whole number that a value stands for: a truth value is 0 or 1, a float loses its fraction,
and a text is read as a numeral.  As a number of microseconds, where a text is refused, a
float is rounded instead. -/

namespace AccessControl.Value

/-- The whole number that a value stands for. -/
def toInt : Value → Except Failure Int
  | .bool b => .ok (if b then 1 else 0)
  | .int n => .ok n
  | .float .nan => .error (.value "cannot convert float NaN to integer")
  | .float x =>
    match x.truncate with
    | some n => .ok n
    | none => .error .range
  | .text s => (Text.readInt s).mapError (Failure.numeral s)
  | _ => .error (.type none)

/-- The duration of a number of microseconds. -/
def toDuration (v : Value) : Except Failure Duration := do
  let micros ← match v with
    | .text _ => .error (.type none)
    | .float x => (Duration.addFraction · x.fraction) <$> v.toInt
    | _ => v.toInt
  match Duration.ofMicros micros with
  | .ok d => return d
  | .error _ => .error .range

end AccessControl.Value
