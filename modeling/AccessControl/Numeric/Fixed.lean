import AccessControl.Numeric.Decimal

/-! # Numbers with a given number of digits

A magnitude, given as a quotient of natural numbers, is rounded to a number of decimal
places (`fixed`), or to a number of places after its first digit (`exponential`).  A half
goes to the even neighbour. -/

namespace AccessControl.Double

/-- Digits with zeros in front, up to a width. -/
def widened (width n : Nat) : List Char :=
  let ds := Nat.toDigits 10 n
  List.replicate (width - ds.length) '0' ++ ds

/-- Digits with a point before the last `places` of them; `point` asks for the point even before
nothing. -/
def withPoint (places : Nat) (point : Bool) (digits : List Char) : List Char :=
  let whole := digits.take (digits.length - places)
  let rest := digits.drop (digits.length - places)
  if places = 0 then (if point then whole ++ ['.'] else whole) else whole ++ '.' :: rest

/-- A quotient with a number of decimal places. -/
def fixed (places : Nat) (point : Bool) (num den : Nat) : List Char :=
  withPoint places point (widened (places + 1) (divRoundEven (num * Nat.pow 10 places) den))

/-- A quotient times a power of ten, rounded. -/
def scaledRound (num den : Nat) (power : Int) : Nat :=
  if 0 ≤ power then divRoundEven (num * Nat.pow 10 power.toNat) den
  else divRoundEven num (den * Nat.pow 10 (-power).toNat)

/-- The exponent of the first digit of a quotient that is not zero. -/
def leadingExponent (num den : Nat) : Int :=
  let guess : Int := (Nat.toDigits 10 num).length - (Nat.toDigits 10 den).length
  let reached : Bool :=
    if 0 ≤ guess then den * Nat.pow 10 guess.toNat ≤ num else den ≤ num * Nat.pow 10 (-guess).toNat
  if reached then guess else guess - 1

/-- A quotient as digits, `places` of them after the first one, and the exponent of the first. -/
def leadingDigits (places num den : Nat) : Nat × Int :=
  if num = 0 then (0, 0)
  else
    let e := leadingExponent num den
    let digits := scaledRound num den (places - e)
    if digits = Nat.pow 10 (places + 1) then (Nat.pow 10 places, e + 1) else (digits, e)

/-- A quotient with an exponent, and a number of places after the first digit. -/
def exponential (places : Nat) (point : Bool) (num den : Nat) : List Char :=
  let (digits, e) := leadingDigits places num den
  withPoint places point (widened (places + 1) digits) ++ 'e' :: exponentText e

/-- Decimals without the zeros at the end, and without a point at the end. -/
def dropTrailing (cs : List Char) : List Char :=
  if cs.contains '.' then
    let short := (cs.reverse.dropWhile (· == '0')).reverse
    if short.getLast? == some '.' then short.dropLast else short
  else cs

/-- A quotient with a number of significant digits: with an exponent when it is very small or has
more digits before the point.  `full` keeps the zeros at the end. -/
def significant (count : Nat) (full : Bool) (num den : Nat) : List Char :=
  let count := max 1 count
  let (_, e) := leadingDigits (count - 1) num den
  let short (cs : List Char) : List Char := if full then cs else dropTrailing cs
  if -4 ≤ e ∧ e < count then short (fixed ((count - 1 : Int) - e).toNat full num den)
  else
    let text := exponential (count - 1) full num den
    short (text.takeWhile (· != 'e')) ++ text.dropWhile (· != 'e')

end AccessControl.Double
