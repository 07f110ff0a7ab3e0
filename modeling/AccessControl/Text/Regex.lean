/-! # Regular expressions

A regular expression stands for a single character of a set, for one part after another, for one of
two parts, or for a part any number of times.  `^` stands for the start of a text and `$` for its
end, or for the place before a line feed that ends it.  `Regex.accepts` searches all ways in which a
whole text can have the form of an expression.

`Regex.read` reads an expression as it is written: characters for themselves, `.` for any character
but a line feed, sets in brackets, a backslash before a character that is not taken as special,
groups with or without `?:`, `|`, and `*`, `+` and `?` after a part, each of which may be followed
by one more `?` that changes nothing about the texts.  Counts in braces, a second `+` after a sign,
other groups, and a backslash before a digit or a letter, the letters of control characters aside,
are not read. -/

namespace AccessControl

/-- Characters in some ranges, or all characters that are in none of them. -/
structure CharSet where
  excluded : Bool
  ranges : List (Char × Char)
  deriving DecidableEq, Repr

namespace CharSet

/-- Is the character in the set? -/
def contains (s : CharSet) (c : Char) : Bool :=
  (s.ranges.any fun r => r.1 ≤ c && c ≤ r.2) != s.excluded

/-- The set of one character. -/
def single (c : Char) : CharSet := ⟨false, [(c, c)]⟩

/-- All characters but one. -/
def except (c : Char) : CharSet := ⟨true, [(c, c)]⟩

end CharSet

/-- A form of texts. -/
inductive Regex where
  | empty
  | one (s : CharSet)
  | start
  | finish
  | seq (first second : Regex)
  | either (first second : Regex)
  | star (part : Regex)
  deriving DecidableEq, Repr

namespace Regex

/-- One or more of a part. -/
def plus (part : Regex) : Regex := .seq part (.star part)

/-- A part, or nothing. -/
def optional (part : Regex) : Regex := .either part .empty

/-! ### Search -/

/-- Goes on, or takes the part once more when that takes a character at least.  The count bounds how
often. -/
def repeated (part : (List Char → Bool) → List Char → Bool) (goOn : List Char → Bool) :
    Nat → List Char → Bool
  | 0, cs => goOn cs
  | count + 1, cs =>
    goOn cs || part (fun rest => rest.length < cs.length && repeated part goOn count rest) cs

/-- Can a form be taken from the front of the characters so that what is left can go on?  The whole
text has the given length. -/
def search (length : Nat) : Regex → (List Char → Bool) → List Char → Bool
  | .empty, goOn, cs => goOn cs
  | .one _, _, [] => false
  | .one s, goOn, c :: cs => s.contains c && goOn cs
  | .start, goOn, cs => cs.length == length && goOn cs
  | .finish, goOn, cs => (cs == [] || cs == ['\n']) && goOn cs
  | .seq first second, goOn, cs => search length first (search length second goOn) cs
  | .either first second, goOn, cs => search length first goOn cs || search length second goOn cs
  | .star part, goOn, cs => repeated (search length part) goOn cs.length cs

/-- Does the whole text have the form? -/
def accepts (r : Regex) (text : String) : Bool :=
  r.search text.toList.length List.isEmpty text.toList

/-! ### Written expressions -/

/-- The character that is written after a backslash. -/
def escaped (c : Char) : Option Char :=
  match c with
  | 'a' => some '\x07'
  | 'f' => some '\x0c'
  | 'n' => some '\n'
  | 'r' => some '\r'
  | 't' => some '\t'
  | 'v' => some '\x0b'
  | c => if c.isAlphanum then none else some c

/-- A character as it is written in a set. -/
def takeMember : List Char → Option (Char × List Char)
  | [] => none
  | '\\' :: [] => none
  | '\\' :: c :: cs => (escaped c).map (·, cs)
  | c :: cs => some (c, cs)

/-- A range as it is written in a set.  A hyphen before the closing bracket stands for itself. -/
def takeRange (cs : List Char) : Option ((Char × Char) × List Char) := do
  let (low, rest) ← takeMember cs
  match rest with
  | '-' :: ']' :: _ => some ((low, low), rest)
  | '-' :: rest =>
    let (high, rest) ← takeMember rest
    if high < low then none else some ((low, high), rest)
  | rest => some ((low, low), rest)

/-- The ranges of a set up to its closing bracket, of which there is one at least.  The count bounds
their number. -/
def takeRanges : Nat → List Char → Option (List (Char × Char) × List Char)
  | 0, _ => none
  | count + 1, cs => do
    let (range, rest) ← takeRange cs
    match rest with
    | ']' :: rest => some ([range], rest)
    | rest => (takeRanges count rest).map fun found => (range :: found.1, found.2)

/-- A set after its opening bracket. -/
def takeSet (cs : List Char) : Option (CharSet × List Char) :=
  match cs with
  | '^' :: cs => (takeRanges cs.length cs).map fun found => (⟨true, found.1⟩, found.2)
  | cs => (takeRanges cs.length cs).map fun found => (⟨false, found.1⟩, found.2)

/-- What follows a sign of repetition, without the sign for the order of the search. -/
def afterSign : List Char → List Char
  | '?' :: cs => cs
  | cs => cs

/-- A part with the sign of repetition that follows it. -/
def takeSign (part : Regex) : List Char → Regex × List Char
  | '*' :: cs => (.star part, afterSign cs)
  | '+' :: cs => (plus part, afterSign cs)
  | '?' :: cs => (optional part, afterSign cs)
  | cs => (part, cs)

/-- What a group holds after its opening parenthesis. -/
def openGroup : List Char → Option (List Char)
  | '?' :: ':' :: cs => some cs
  | '?' :: _ => none
  | cs => some cs

/-- The signs that repeat what stands before them. -/
def signs : List Char := ['*', '+', '?', '\x7b']

mutual
/-- The parts between bars.  The counts of these three bound how deep they go. -/
def takeChoice : Nat → List Char → Option (Regex × List Char)
  | 0, _ => none
  | count + 1, cs => do
    let (first, rest) ← takeSequence count cs
    match rest with
    | '|' :: rest => (takeChoice count rest).map fun found => (.either first found.1, found.2)
    | rest => some (first, rest)

/-- The parts up to a bar, a closing parenthesis or the end. -/
def takeSequence : Nat → List Char → Option (Regex × List Char)
  | 0, _ => none
  | _ + 1, [] => some (.empty, [])
  | count + 1, c :: cs =>
    if c = '|' ∨ c = ')' then some (.empty, c :: cs)
    else do
      let (first, rest) ← takePart count c cs
      (takeSequence count rest).map fun found => (.seq first found.1, found.2)

/-- The part that begins with a character. -/
def takePart : Nat → Char → List Char → Option (Regex × List Char)
  | 0, _, _ => none
  | count + 1, c, cs =>
    match c with
    | '^' => some (.start, cs)
    | '$' => some (.finish, cs)
    | '.' => some (takeSign (.one (.except '\n')) cs)
    | '\\' => (takeMember (c :: cs)).map fun found => takeSign (.one (.single found.1)) found.2
    | '[' => (takeSet cs).map fun found => takeSign (.one found.1) found.2
    | '(' => do
      let (part, rest) ← takeChoice count (← openGroup cs)
      match rest with
      | ')' :: rest => some (takeSign part rest)
      | _ => none
    | c => if signs.contains c then none else some (takeSign (.one (.single c)) cs)
end

/-- The expression that is written in a text. -/
def read (text : String) : Option Regex :=
  match takeChoice (3 * text.toList.length + 3) text.toList with
  | some (r, []) => some r
  | _ => none

end Regex
end AccessControl
