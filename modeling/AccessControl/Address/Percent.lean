import AccessControl.Text.Blank

/-! # Percent escapes

In an address a percent sign and two hexadecimal digits stand for a byte, and runs of such bytes for
the UTF-8 text that they form.  A sequence of bytes that forms no character is read as the
replacement character, one for each longest part that could have begun one. -/

namespace AccessControl.Address

/-! ### Bytes as text -/

/-- The number of bytes that follow a first byte; none for a byte that begins nothing. -/
def following (b : Nat) : Option Nat :=
  if b < 0x80 then some 0
  else if 0xC2 ≤ b ∧ b ≤ 0xDF then some 1
  else if 0xE0 ≤ b ∧ b ≤ 0xEF then some 2
  else if 0xF0 ≤ b ∧ b ≤ 0xF4 then some 3
  else none

/-- May the second byte follow the first? -/
def maySecond (first second : Nat) : Bool :=
  let least := if first = 0xE0 then 0xA0 else if first = 0xF0 then 0x90 else 0x80
  let greatest := if first = 0xED then 0x9F else if first = 0xF4 then 0x8F else 0xBF
  least ≤ second && second ≤ greatest

/-- Is the byte one that continues a character? -/
def continues (b : Nat) : Bool := 0x80 ≤ b && b ≤ 0xBF

/-- The bytes, at most `count` of them, that go on with a character. -/
def continuation (first count : Nat) (bytes : List Nat) : List Nat :=
  match count, bytes with
  | 0, _ => []
  | _, [] => []
  | n + 1, b :: bs => if maySecond first b then b :: (bs.take n).takeWhile continues else []

/-- The number in the bits of a first byte that has `count` bytes after it. -/
def firstBits (count b : Nat) : Nat :=
  if count = 0 then b else if count = 1 then b % 0x20 else if count = 2 then b % 0x10 else b % 0x08

/-- The character for bytes that form none. -/
def replacement : Char := Char.ofNat 0xFFFD

/-- The text that bytes form.  The count bounds the number of bytes. -/
def decodeBytes : Nat → List Nat → List Char
  | 0, _ => []
  | _ + 1, [] => []
  | fuel + 1, b :: bs =>
    match following b with
    | none => replacement :: decodeBytes fuel bs
    | some count =>
      let more := continuation b count bs
      if more.length = count then
        Char.ofNat (more.foldl (fun n c => 64 * n + c % 64) (firstBits count b)) ::
          decodeBytes fuel (bs.drop count)
      else replacement :: decodeBytes fuel (bs.drop more.length)

/-! ### Escapes -/

/-- The value of a hexadecimal digit. -/
def hexValue (c : Char) : Option Nat :=
  if '0' ≤ c ∧ c ≤ '9' then some (c.toNat - 48)
  else if 'a' ≤ c ∧ c ≤ 'f' then some (c.toNat - 87)
  else if 'A' ≤ c ∧ c ≤ 'F' then some (c.toNat - 55)
  else none

/-- The byte of an escape at the front of the characters. -/
def escape : List Char → Option Nat
  | '%' :: high :: low :: _ => (hexValue high).bind fun h => (hexValue low).map fun l => 16 * h + l
  | _ => none

/-- The text with its escapes replaced; `bytes` holds those met just before, in reverse.  The count
bounds the number of characters. -/
def unescapeFrom : Nat → List Nat → List Char → List Char
  | 0, bytes, _ => decodeBytes bytes.length bytes.reverse
  | _ + 1, bytes, [] => decodeBytes bytes.length bytes.reverse
  | fuel + 1, bytes, c :: cs =>
    match escape (c :: cs) with
    | some b => unescapeFrom fuel (b :: bytes) (cs.drop 2)
    | none => decodeBytes bytes.length bytes.reverse ++ c :: unescapeFrom fuel [] cs

/-- The characters with their escapes replaced. -/
def unescape (cs : List Char) : List Char := unescapeFrom (cs.length + 1) [] cs

/-- The characters with plus signs as blanks and escapes replaced. -/
def unescapeQuery (cs : List Char) : List Char :=
  unescape (cs.map fun c => if c = '+' then ' ' else c)

/-! ### Cutting -/

/-- What stands before the first member of `p`, and the rest from there on. -/
def cutAt (p : Char → Bool) (cs : List Char) : List Char × List Char :=
  (cs.takeWhile (!p ·), cs.dropWhile (!p ·))

/-- What stands before and after the first occurrence of a character. -/
def splitFirst (c : Char) (cs : List Char) : Option (List Char × List Char) :=
  match cutAt (· == c) cs with
  | (_, []) => none
  | (before, _ :: after) => some (before, after)

/-- What stands before and after the last occurrence of a character. -/
def splitLast (c : Char) (cs : List Char) : Option (List Char × List Char) :=
  (splitFirst c cs.reverse).map fun (after, before) => (before.reverse, after.reverse)

/-- The text, when it is not empty. -/
def nonEmpty (cs : List Char) : Option (List Char) := if cs.isEmpty then none else some cs

end AccessControl.Address
