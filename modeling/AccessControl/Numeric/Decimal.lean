import AccessControl.Text.Numeral
import AccessControl.Text.Case
import AccessControl.Numeric.Double

/-! # Decimal text of floating-point numbers

`Decimal.toDouble` is the nearest double to a decimal.  `Double.shortest` is the decimal with the
fewest digits that reads back as the number, and of those the nearest.  `Double.text` writes it
positionally from `0.0001` up to below `10 ^ 16`, with `.0` when there is nothing after the point,
and else with an exponent of at least two digits.  `Double.read` is the reader for text: white space
around, a sign, digits of any script with single underscores between them, a point, an exponent, and
the names of infinity and of not a number. -/

namespace AccessControl

/-- A decimal `digits * 10 ^ exponent` with a sign. -/
structure Decimal where
  negative : Bool
  digits : Nat
  exponent : Int
  deriving DecidableEq, Repr

namespace Decimal

/-- Decimals from this power of ten on are infinite, whatever their digits. -/
def hugePower : Int := 400

/-- Decimals below this power of ten are zero. -/
def tinyPower : Int := -400

/-- The number of decimal digits of a positive number; zero has none. -/
def digitCount (n : Nat) : Nat := if n = 0 then 0 else (Nat.toDigits 10 n).length

/-- The double nearest to a decimal. -/
def toDouble (d : Decimal) : Double :=
  let lead : Int := d.exponent + digitCount d.digits
  if d.digits = 0 then .zero d.negative
  else if hugePower ≤ lead then .infinite d.negative
  else if lead ≤ tinyPower then .zero d.negative
  else if 0 ≤ d.exponent then .ofRatio d.negative (d.digits * Nat.pow 10 d.exponent.toNat) 1
  else .ofRatio d.negative d.digits (Nat.pow 10 (-d.exponent).toNat)

end Decimal

namespace Double

/-! ### Shortest digits -/

/-- The power of ten just above a magnitude `num / den` above zero: the least `k` with `num / den <
10 ^ k`. Below one it is `-j` for the largest `j` with `10 ^ j * num < den`. -/
def decimalLead (num den : Nat) : Int :=
  if den ≤ num then (Decimal.digitCount (num / den) : Nat)
  else
    let j := Decimal.digitCount (den / num) - 1
    Int.negOfNat (if Nat.pow 10 j * num < den then j else j - 1)

/-- The two neighbours of `num / den` on the grid of `10 ^ e`, the nearer first; of two at the same
distance the even one is first. -/
def gridNeighbours (num den : Nat) (e : Int) : List Nat :=
  let (n, d) :=
    if 0 ≤ e then (num, den * Nat.pow 10 e.toNat) else (num * Nat.pow 10 (-e).toNat, den)
  let q := n / d
  if divRoundEven n d = q then [q, q + 1] else [q + 1, q]

/-- The first decimal on grids of more and more digits that reads back as `x`. -/
def shortestFrom (x : Double) (negative : Bool) (num den : Nat) (lead : Int) :
    Nat → Nat → Option Decimal
  | 0, _ => none
  | fuel + 1, count =>
    let e := lead - count
    match (gridNeighbours num den e).find? fun d => (Decimal.mk negative d e).toDouble == x with
    | some d => some ⟨negative, d, e⟩
    | none => shortestFrom x negative num den lead fuel (count + 1)

/-- The digits of a finite number without trailing zeros. -/
def trimZeros : Nat → Nat → Int → Nat × Int
  | 0, d, e => (d, e)
  | fuel + 1, d, e => if d % 10 = 0 ∧ d ≠ 0 then trimZeros fuel (d / 10) (e + 1) else (d, e)

/-- The decimal with the fewest digits that reads back as the finite number. -/
def shortest (negative : Bool) (m : Nat) (e : Int) : Decimal :=
  if m = 0 then ⟨negative, 0, 0⟩
  else
    let (num, den) := ratio m e
    let exact : Decimal :=
      if 0 ≤ e then ⟨negative, num, 0⟩ else ⟨negative, m * Nat.pow 5 (-e).toNat, e⟩
    let found :=
      (shortestFrom (.finite negative m e) negative num den (decimalLead num den) 17 1).getD exact
    let (d, k) := trimZeros 1100 found.digits found.exponent
    ⟨negative, d, k⟩

/-! ### Text -/

/-- Zeros in a row. -/
def zeros (n : Nat) : List Char := List.replicate n '0'

/-- Digits written positionally; `point` digits stand before the point. -/
def positional (ds : List Char) (point : Int) : List Char :=
  if point ≤ 0 then '0' :: '.' :: zeros (-point).toNat ++ ds
  else if ds.length ≤ point.toNat then ds ++ zeros (point.toNat - ds.length) ++ ['.', '0']
  else ds.take point.toNat ++ '.' :: ds.drop point.toNat

/-- An exponent with its sign and at least two digits. -/
def exponentText (e : Int) : List Char :=
  let ds := Nat.toDigits 10 e.natAbs
  (if e < 0 then '-' else '+') :: (if ds.length < 2 then '0' :: ds else ds)

/-- Digits written with an exponent. -/
def scientific (ds : List Char) (point : Int) : List Char :=
  match ds with
  | [] => []
  | [d] => d :: 'e' :: exponentText (point - 1)
  | d :: rest => d :: '.' :: rest ++ 'e' :: exponentText (point - 1)

/-- The digits of a decimal with the point after the first `point` of them. -/
def decimalText (d : Decimal) : List Char :=
  let ds := Nat.toDigits 10 d.digits
  let point : Int := if d.digits = 0 then 1 else d.exponent + ds.length
  (if d.negative then ['-'] else []) ++
    (if -4 < point ∧ point ≤ 16 then positional ds point else scientific ds point)

/-- The text of a number. -/
def text : Double → String
  | .nan => "nan"
  | .infinite negative => if negative then "-inf" else "inf"
  | .finite negative m e => String.ofList (decimalText (shortest negative m e))

/-! ### Reading -/

/-- The digits of a run with single underscores between them, possibly none, and the rest. -/
def takeRun (cs : List Char) : Option (List Nat × List Char) :=
  match cs with
  | [] => some ([], [])
  | c :: _ => if (Text.digitValue c).isSome then Text.takeDigits false cs else some ([], cs)

/-- The exponent after a number, if any, and the rest.  A mark without digits is an error. -/
def takeExponent (cs : List Char) : Option (Int × List Char) :=
  match cs with
  | [] => some (0, [])
  | c :: rest =>
    if c = 'e' ∨ c = 'E' then
      let (negative, body) := Text.takeSign rest
      match takeRun body with
      | none => none
      | some ([], _) => none
      | some (ds, after) =>
        let n : Int := Text.ofDigits ds
        some (if negative then -n else n, after)
    else some (0, cs)

/-- The number in a text without sign and white space around it. -/
def readUnsigned (negative : Bool) (cs : List Char) : Option Double :=
  let name := cs.map Text.asciiLowerChar
  if name = "inf".toList ∨ name = "infinity".toList then some (.infinite negative)
  else if name = "nan".toList then some .nan
  else
    match takeRun cs with
    | none => none
    | some (whole, rest) =>
      let parts : Option (List Nat × List Char) :=
        match rest with
        | '.' :: after => takeRun after
        | _ => some ([], rest)
      match parts with
      | none => none
      | some (fraction, rest) =>
        if whole.isEmpty && fraction.isEmpty then none
        else
          match takeExponent rest with
          | some (e, []) =>
            some (Decimal.mk negative (Text.ofDigits (whole ++ fraction))
              (e - fraction.length)).toDouble
          | _ => none

/-- The number that a text denotes. -/
def read (s : String) : Option Double :=
  let (negative, body) := Text.takeSign (Text.trim Text.isSpace s.toList)
  readUnsigned negative body

end Double
end AccessControl
