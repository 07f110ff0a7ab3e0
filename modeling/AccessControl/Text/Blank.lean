/-! # Blank characters, trimming and splitting

White space is the Unicode set: the controls U+0009 to U+000D and U+001C to U+001F, the space,
U+0085, U+00A0 and the space separators.  Text is trimmed of it at both ends (`strip`) or of any
other class (`stripOf`), and cut at single characters (`splitOn`). -/

namespace AccessControl.Text

/-! ### White space -/

/-- Unicode white space. -/
def isBlank (c : Char) : Bool :=
  let n := c.toNat
  (0x9 ≤ n && n ≤ 0xD) || (0x1C ≤ n && n ≤ 0x20) || n == 0x85 || n == 0xA0 || n == 0x1680
    || (0x2000 ≤ n && n ≤ 0x200A) || n == 0x2028 || n == 0x2029 || n == 0x202F || n == 0x205F
    || n == 0x3000

/-- White space by the Unicode property alone: the separators U+001C to U+001F are not in it. -/
def isSpace (c : Char) : Bool := isBlank c && !(0x1C ≤ c.toNat && c.toNat ≤ 0x1F)

/-- A list of characters without the members of `p` at its two ends. -/
def trim (p : Char → Bool) (cs : List Char) : List Char :=
  ((cs.dropWhile p).reverse.dropWhile p).reverse

/-- The text without the members of `p` at its two ends. -/
def stripOf (p : Char → Bool) (s : String) : String := String.ofList (trim p s.toList)

/-- The text without white space at its two ends. -/
def strip (s : String) : String := stripOf isBlank s

/-- Does the text hold anything but white space? -/
def isBlankText (s : String) : Bool := s.toList.all isBlank

/-! ### Splitting -/

/-- The pieces between the occurrences of `sep`; a list without `sep` is one piece. -/
def splitOn (sep : Char) : List Char → List (List Char)
  | [] => [[]]
  | c :: cs =>
    if c = sep then [] :: splitOn sep cs
    else match splitOn sep cs with
      | [] => [[c]]
      | piece :: rest => (c :: piece) :: rest

/-- The pieces of a text between the occurrences of `sep`. -/
def split (sep : Char) (s : String) : List String := (splitOn sep s.toList).map String.ofList

theorem splitOn_ne_nil (sep : Char) (cs : List Char) : splitOn sep cs ≠ [] := by
  induction cs with
  | nil => simp [splitOn]
  | cons c cs ih =>
    unfold splitOn
    split
    · simp
    · split <;> simp

/-! ### Dropping repeats -/

/-- The list without repeats; each member stays where it first occurs. -/
def distinct {α : Type} [BEq α] (xs : List α) : List α :=
  (xs.foldl (fun kept x => if kept.contains x then kept else x :: kept) []).reverse

end AccessControl.Text
