import AccessControl.Path.Expression
import AccessControl.Text.Quoted

/-! # Path patterns

A pattern is a path with placeholders.  Inside a segment, `{name}`, `:name` and a run of `*` are
tokens that stand for one or more characters of that segment.  A segment `**` on its own stands for
the rest of the path, and nothing after it is looked at.  Everything else, empty segments and a
final slash included, stands for itself.

`Pattern.read` takes a pattern apart and `Pattern.expression` is the path expression it stands
for. -/

namespace AccessControl.Path

/-! ### Segments -/

/-- A literal character of a segment, or a token with its text. -/
inductive Piece where
  | literal (c : Char)
  | token (text : List Char)
  deriving DecidableEq, Repr

/-- The item for a piece. -/
def Piece.item : Piece → Item
  | .literal c => .char c
  | .token _ => .wildcard

/-- What stands before the last closing brace, and what follows it. -/
def splitLastBrace (cs : List Char) : Option (List Char × List Char) :=
  match cs with
  | [] => none
  | c :: rest =>
    match splitLastBrace rest with
    | some (inside, after) => some (c :: inside, after)
    | none => if c = '\x7d' then some ([], rest) else none

/-- May the character begin a name after a colon? -/
def isNameStart (c : Char) : Bool :=
  (65 ≤ c.toNat && c.toNat ≤ 90) || (97 ≤ c.toNat && c.toNat ≤ 122) || c == '_'

/-- May the character continue a name after a colon? -/
def isNameChar (c : Char) : Bool := isNameStart c || (48 ≤ c.toNat && c.toNat ≤ 57)

/-- The token at the front of the characters, and what follows it. -/
def takeToken : List Char → Option (List Char × List Char)
  | [] => none
  | c :: cs =>
    if c = '\x7b' then
      match splitLastBrace cs with
      | some (inside, after) => some (c :: (inside ++ ['\x7d']), after)
      | none => none
    else if c = ':' then
      match cs with
      | d :: ds =>
        if isNameStart d then
          some (c :: d :: ds.takeWhile isNameChar, ds.dropWhile isNameChar)
        else none
      | [] => none
    else if c = '*' then some (c :: cs.takeWhile (· == '*'), cs.dropWhile (· == '*'))
    else none

/-- The pieces of a segment from left to right.  The count bounds the number of pieces. -/
def scanFrom : Nat → List Char → List Piece
  | 0, _ => []
  | _ + 1, [] => []
  | fuel + 1, c :: cs =>
    match takeToken (c :: cs) with
    | some (text, after) => .token text :: scanFrom fuel after
    | none => .literal c :: scanFrom fuel cs

/-- The pieces of a segment from left to right. -/
def scan (segment : List Char) : List Piece := scanFrom segment.length segment

/-- The placeholder without a name. -/
def emptyPlaceholder : List Char := ['\x7b', '\x7d']

/-! ### Patterns -/

/-- A pattern taken apart: the segments before the first `**`, and whether there is one. -/
structure Pattern where
  segments : List (List Piece)
  tail : Bool
  deriving DecidableEq, Repr

/-- Why a text is no pattern. -/
inductive PatternError where
  /-- The pattern holds white space, a question mark or a number sign. -/
  | forbidden (pattern : String)
  /-- The pattern holds a placeholder without a name. -/
  | emptyPlaceholder (pattern : String)
  deriving DecidableEq, Repr

/-- The message for an error in a pattern. -/
def PatternError.message : PatternError → String
  | .forbidden p => "Path pattern " ++ Text.quoted p ++ " must not contain whitespace, '?' or '#'"
  | .emptyPlaceholder p => "Empty placeholder in path pattern " ++ Text.quoted p

/-- The characters that no pattern holds. -/
def isForbidden (c : Char) : Bool := Text.isBlank c || c == '?' || c == '#'

/-- The segment that stands for the rest of the path. -/
def openSegment : List Char := ['*', '*']

/-- The segments of a trimmed pattern: a first slash is added when it is missing. -/
def segmentsOf (cs : List Char) : List (List Char) :=
  match cs with
  | '/' :: rest => Text.splitOn '/' rest
  | _ => Text.splitOn '/' cs

namespace Pattern

/-- The pattern in a text; `none` when the text is blank. -/
def read (text : String) : Except PatternError (Option Pattern) :=
  let cs := Text.trim Text.isBlank text.toList
  if cs.isEmpty then .ok none
  else if cs.any isForbidden then .error (.forbidden text)
  else
    let segments := segmentsOf cs
    let scanned := (segments.takeWhile (· != openSegment)).map scan
    if scanned.any (·.contains (.token emptyPlaceholder)) then .error (.emptyPlaceholder text)
    else .ok (some ⟨scanned, segments.contains openSegment⟩)

/-- The path expression that a pattern stands for. -/
def expression (p : Pattern) : Expression :=
  ⟨p.segments.flatMap fun pieces => .char '/' :: pieces.map Piece.item, p.tail⟩

end Pattern

/-! ### Compilation -/

/-- A pattern ready to match: its trimmed text and its expression. -/
structure Matcher where
  pattern : String
  expression : Expression
  deriving DecidableEq, Repr

namespace Matcher

/-- The stored text of the matcher's expression. -/
def stored (m : Matcher) : String := m.expression.text

/-- Does the path have the form that the stored text denotes? -/
def accepts (m : Matcher) (path : String) : Bool := m.expression.accepts path

end Matcher

/-- The matcher for a pattern; `none` when the text is blank. -/
def compile (text : String) : Except PatternError (Option Matcher) :=
  match Pattern.read text with
  | .error e => .error e
  | .ok none => .ok none
  | .ok (some p) => .ok (some ⟨Text.strip text, p.expression⟩)

/-- The stored text for a pattern; `none` when the text is blank. -/
def compileText (text : String) : Except PatternError (Option String) :=
  match compile text with
  | .error e => .error e
  | .ok m => .ok (m.map Matcher.stored)

end AccessControl.Path
