import AccessControl.Text.Regex

/-! # Path expressions

A path expression is a list of literal characters and wildcards, possibly followed by an open tail.
A wildcard stands for one or more characters other than a slash; the open tail stands for nothing,
or for a slash and any text without a line feed.

An expression is written as a regular expression: `^`, the characters (the reserved ones after a
backslash) and `[^/]+` for each wildcard, `(?:/.*)?` for the open tail, and `$`.  This text is what
is stored, and a path is matched with what is read from it. -/

namespace AccessControl.Path

/-- A literal character, or a run of characters inside one segment. -/
inductive Item where
  | char (c : Char)
  | wildcard
  deriving DecidableEq, Repr

/-- Items in order, and whether a tail may follow. -/
structure Expression where
  items : List Item
  tail : Bool
  deriving DecidableEq, Repr

/-- The characters that are written after a backslash. -/
def isReserved (c : Char) : Bool := "()[]\x7b\x7d?*+-|^$\\.&~# \t\n\r\x0b\x0c".toList.contains c

/-- The text of a wildcard. -/
def wildcardText : List Char := "[^/]+".toList

/-- The text of an open tail. -/
def tailText : List Char := "(?:/.*)?".toList

/-- The text of an item. -/
def Item.text : Item → List Char
  | .char c => if isReserved c then ['\\', c] else [c]
  | .wildcard => wildcardText

/-- The text of an expression. -/
def Expression.text (e : Expression) : String :=
  String.ofList ('^' :: e.items.flatMap Item.text ++ (if e.tail then tailText else []) ++ ['$'])

/-- Does the whole path have the form that the text of the expression denotes? -/
def Expression.accepts (e : Expression) (path : String) : Bool :=
  (Regex.read e.text).any (·.accepts path)

end AccessControl.Path
