/-! # Binary floating-point numbers

A `Double` is not a number, an infinity, or a sign with a mantissa and a power of two.  Everything
that produces one goes through `Double.ofRatio`, the nearest double to a quotient of natural
numbers: a tie goes to the even mantissa, numbers below the least normal one lose bits, and numbers
past the greatest one become infinite.  Reading a decimal, converting an integer, multiplying and
dividing are all that one rounding. -/

namespace AccessControl

/-- A floating-point number of 53 bits.  A finite number is `mantissa * 2 ^
exponent` with the sign. -/
inductive Double where
  /-- Not a number. -/
  | nan
  /-- An infinity. -/
  | infinite (negative : Bool)
  /-- A finite number. -/
  | finite (negative : Bool) (mantissa : Nat) (exponent : Int)
  deriving DecidableEq, Repr

namespace Double

/-! ### Format -/

/-- Bits of a mantissa. -/
def precision : Nat := 53

/-- The exponent of the finest grid. -/
def minExponent : Int := -1074

/-- The exponent of the coarsest grid. -/
def maxExponent : Int := 971

/-- The stored form of finite numbers: a full mantissa, or the finest grid. -/
def Canonical : Double → Prop
  | .nan => True
  | .infinite _ => True
  | .finite _ m e =>
    m < Nat.pow 2 precision ∧ minExponent ≤ e ∧ e ≤ maxExponent ∧
      (Nat.pow 2 (precision - 1) ≤ m ∨ e = minExponent)

/-- The zero with a sign. -/
def zero (negative : Bool) : Double := .finite negative 0 minExponent

/-! ### Rounding -/

/-- The integer nearest to `num / den`; a tie goes to the even one. -/
def divRoundEven (num den : Nat) : Nat :=
  let q := num / den
  let r := num % den
  if 2 * r < den then q
  else if den < 2 * r then q + 1
  else if q % 2 = 0 then q else q + 1

/-- `num / den` divided by `2 ^ e`, as a numerator and a denominator. -/
def scaleRatio (num den : Nat) (e : Int) : Nat × Nat :=
  if 0 ≤ e then (num, den * Nat.pow 2 e.toNat) else (num * Nat.pow 2 (-e).toNat, den)

/-- The exponent at which the quotient has `precision` bits before the point, or the finest one. -/
def gridExponent (num den : Nat) : Int :=
  let guess : Int := (num.log2 : Int) - den.log2 - precision
  let (n, d) := scaleRatio num den guess
  let exact := if n / d < Nat.pow 2 precision then guess else guess + 1
  max exact minExponent

/-- The number with the given mantissa, which may have reached the next power of two. -/
def ofMantissa (negative : Bool) (m : Nat) (e : Int) : Double :=
  let (m, e) := if m = Nat.pow 2 precision then (Nat.pow 2 (precision - 1), e + 1) else (m, e)
  if maxExponent < e then .infinite negative else .finite negative m e

/-- The double nearest to `num / den` with a sign; a tie goes to the even mantissa. -/
def ofRatio (negative : Bool) (num den : Nat) : Double :=
  if num = 0 then zero negative
  else
    let e := gridExponent num den
    let (n, d) := scaleRatio num den e
    ofMantissa negative (divRoundEven n d) e

/-- The double nearest to an integer. -/
def ofInt (n : Int) : Double := ofRatio (decide (n < 0)) n.natAbs 1

/-! ### Exact value -/

/-- The magnitude of a finite number as numerator and denominator. -/
def ratio (m : Nat) (e : Int) : Nat × Nat :=
  if 0 ≤ e then (m * Nat.pow 2 e.toNat, 1) else (m, Nat.pow 2 (-e).toNat)

/-- The integer part of a finite number, toward zero; `none` for the others. -/
def truncate : Double → Option Int
  | .nan => none
  | .infinite _ => none
  | .finite negative m e =>
    let (n, d) := ratio m e
    some (if negative then -((n / d : Nat) : Int) else (n / d : Nat))

/-- The greatest integer that is not above a finite number; `none` for the others. -/
def floor : Double → Option Int
  | .nan => none
  | .infinite _ => none
  | .finite negative m e =>
    let (n, d) := ratio m e
    some ((if negative then -(n : Int) else n) / d)

/-- Is the number finite and whole? -/
def isWhole : Double → Bool
  | .nan => false
  | .infinite _ => false
  | .finite _ m e => let (n, d) := ratio m e; n % d == 0

/-- The least integer that is not below a finite number; `none` for the others. -/
def ceiling (x : Double) : Option Int := if x.isWhole then x.truncate else x.floor.map (· + 1)

/-- Is the number above zero? -/
def isPositive : Double → Bool
  | .nan => false
  | .infinite negative => !negative
  | .finite negative m _ => !negative && m != 0

/-- Is the number zero or below? -/
def isNotPositive : Double → Bool
  | .nan => false
  | .infinite negative => negative
  | .finite negative m _ => negative || m == 0

/-- Is the number zero, of either sign? -/
def isZero : Double → Bool
  | .finite _ m _ => m == 0
  | _ => false

/-! ### Arithmetic -/

/-- The product with a natural number above zero, rounded once. -/
def scaleBy (k : Nat) : Double → Double
  | .nan => .nan
  | .infinite negative => .infinite negative
  | .finite negative m e =>
    let (n, d) := ratio m e
    ofRatio negative (n * k) d

/-- The fraction left when the integer part is taken away; it is exact. -/
def fraction : Double → Double
  | .nan => .nan
  | .infinite negative => zero negative
  | .finite negative m e =>
    let (n, d) := ratio m e
    ofRatio negative (n % d) d

/-- The quotient with a natural number above zero, rounded once. -/
def divideBy (k : Nat) : Double → Double
  | .nan => .nan
  | .infinite negative => .infinite negative
  | .finite negative m e =>
    let (n, d) := ratio m e
    ofRatio negative n (d * k)

/-- How far the number is above its floor, rounded once. -/
def aboveFloor : Double → Double
  | .nan => .nan
  | .infinite _ => .nan
  | .finite negative m e =>
    let (n, d) := ratio m e
    let scaled : Int := if negative then -(n : Int) else n
    ofRatio false (scaled % d).toNat d

/-- Is a magnitude less than that of another number? -/
def magnitudeLess : Double → Double → Bool
  | .finite _ m e, .finite _ n f =>
    let (a, b) := ratio m e
    let (c, d) := ratio n f
    a * d < c * b
  | .finite _ _ _, .infinite _ => true
  | _, _ => false

end Double
end AccessControl
