import AccessControl.Text.Blank

/-! # Environment files

An environment file gives values to names, one entry a line: a name, perhaps after `export` and
perhaps in single quotes, then an equals sign and a value.  A value in quotes may run over several
lines and holds escapes; any other ends at a comment or with its line.  A line of another form is
passed over.  Inside values, the name of a variable between `$\x7b` and `\x7d` stands for what
earlier entries or the environment say, and else for the text after `:-`. -/

namespace AccessControl.Settings.File

/-- An entry; a name without an equals sign has no value. -/
abbrev Entry := String × Option String

/-! ### Characters of a line -/

/-- The characters with every end of a line as one line feed. -/
def unifyLines : List Char → List Char
  | [] => []
  | '\r' :: '\n' :: cs => '\n' :: unifyLines cs
  | c :: cs => (if c = '\r' then '\n' else c) :: unifyLines cs

/-- White space inside a line. -/
def isInline (c : Char) : Bool := Text.isBlank c && c != '\n'

/-- What follows the line. -/
def nextLine (cs : List Char) : List Char := (cs.dropWhile (· != '\n')).drop 1

/-- What follows the line when it holds nothing more than a comment. -/
def endLine (cs : List Char) : Option (List Char) :=
  let rest := cs.dropWhile isInline
  let rest := if rest.head? == some '#' then rest.dropWhile (· != '\n') else rest
  match rest with
  | [] => some []
  | c :: rest => if c = '\n' then some rest else none

/-! ### Values -/

/-- The text up to the first quote that no backslash stands before, and what follows it. -/
def untilQuote (quote : Char) : List Char → Option (List Char × List Char)
  | [] => none
  | '\\' :: c :: cs =>
    if c = quote then (untilQuote quote cs).map fun (text, rest) => ('\\' :: c :: text, rest)
    else (untilQuote quote (c :: cs)).map fun (text, rest) => ('\\' :: text, rest)
  | c :: cs =>
    if c = quote then
      some ([], cs)
    else (untilQuote quote cs).map fun (text, rest) => (c :: text, rest)

/-- The text up to the last quote that a backslash stands before, and what follows it. -/
def untilLastQuote (quote : Char) : List Char → Option (List Char × List Char)
  | [] => none
  | c :: cs =>
    match untilLastQuote quote cs with
    | some (text, rest) => some (c :: text, rest)
    | none => if c = '\\' ∧ cs.head? = some quote then some ([c], cs.drop 1) else none

/-- What an escape in single quotes stands for. -/
def plainEscape (c : Char) : Option Char := if c = '\\' ∨ c = '\'' then some c else none

/-- What an escape in double quotes stands for. -/
def letterEscape (c : Char) : Option Char :=
  match c with
  | 'a' => some '\x07'
  | 'b' => some '\x08'
  | 'f' => some '\x0c'
  | 'n' => some '\n'
  | 'r' => some '\r'
  | 't' => some '\t'
  | 'v' => some '\x0b'
  | '"' => some '"'
  | _ => plainEscape c

/-- The text with its escapes replaced. -/
def unescape (escape : Char → Option Char) : List Char → List Char
  | [] => []
  | '\\' :: c :: cs =>
    match escape c with
    | some meant => meant :: unescape escape cs
    | none => '\\' :: unescape escape (c :: cs)
  | c :: cs => c :: unescape escape cs

/-- The text in quotes, and what follows it. -/
def takeQuoted (quote : Char) (escape : Char → Option Char) (cs : List Char) :
    Option (List Char × List Char) :=
  ((untilQuote quote cs).or (untilLastQuote quote cs)).map fun (text, rest) =>
    (unescape escape text, rest)

/-- The text up to a comment: a number sign after white space. -/
def untilComment : List Char → List Char
  | [] => []
  | c :: cs =>
    if Text.isBlank c && (cs.dropWhile Text.isBlank).head? == some '#' then
      []
    else c :: untilComment cs

/-- A value without quotes, which is the rest of its line. -/
def plainValue (cs : List Char) : List Char :=
  ((untilComment cs).reverse.dropWhile Text.isBlank).reverse

/-- The value at the start of the characters, and what follows it. -/
def takeValue : List Char → Option (List Char × List Char)
  | '\'' :: cs => takeQuoted '\'' plainEscape cs
  | '"' :: cs => takeQuoted '"' letterEscape cs
  | cs => some (plainValue (cs.takeWhile (· != '\n')), cs.dropWhile (· != '\n'))

/-! ### Names -/

/-- The characters without the word `export` and the white space after it. -/
def dropExport (cs : List Char) : List Char :=
  let rest := cs.drop 6
  if cs.take 6 == "export".toList && rest.head?.any isInline then rest.dropWhile isInline else cs

/-- Does the character belong to a name without quotes? -/
def isNameChar (c : Char) : Bool := c != '=' && c != '#' && !Text.isBlank c

/-- The name at the start of the characters, and what follows it; a comment has none. -/
def takeName (cs : List Char) : Option (Option String × List Char) :=
  match cs with
  | '#' :: _ => some (none, cs)
  | '\'' :: inside =>
    let name := inside.takeWhile (· != '\'')
    match inside.drop name.length with
    | [] => none
    | _ :: rest => if name.isEmpty then none else some (some (String.ofList name), rest)
  | _ =>
    let name := cs.takeWhile isNameChar
    if name.isEmpty then none else some (some (String.ofList name), cs.drop name.length)

/-! ### Entries -/

/-- The entry at the start of the characters, if there is one, and what follows it.  In an error,
the rest of the line is what has to be passed over. -/
def takeEntry (cs : List Char) : Except (List Char) (Option Entry × List Char) := do
  let some (name, rest) := takeName cs | .error cs
  let finish (value : Option String) (rest : List Char) :
      Except (List Char) (Option Entry × List Char) :=
    match endLine rest with
    | some next => .ok (name.map fun n => (n, value), next)
    | none => .error rest
  match rest.dropWhile isInline with
  | '=' :: value =>
    let value := value.dropWhile isInline
    match takeValue value with
    | some (text, rest) => finish (some (String.ofList text)) rest
    | none => .error value
  | rest => finish none rest

/-- The entries in characters.  The count bounds the number of characters. -/
def entriesFrom : Nat → List Char → List Entry
  | 0, _ => []
  | fuel + 1, cs =>
    match cs.dropWhile Text.isBlank with
    | [] => []
    | cs =>
      match takeEntry (dropExport cs) with
      | .ok (some entry, rest) => entry :: entriesFrom fuel rest
      | .ok (none, rest) => entriesFrom fuel rest
      | .error rest => entriesFrom fuel (nextLine rest)

/-- The entries of a file as they are written. -/
def entries (text : String) : List Entry := entriesFrom (text.length + 1) (unifyLines text.toList)

/-! ### Variables -/

/-- A variable after its opening brace: its name, the text for when it is not set, and what follows
it. -/
def takeVariable (cs : List Char) : Option (String × String × List Char) :=
  let name := cs.takeWhile fun c => c != '}' && c != ':'
  match cs.drop name.length with
  | '}' :: rest => some (String.ofList name, "", rest)
  | ':' :: '-' :: more =>
    let absent := more.takeWhile (· != '}')
    match more.drop absent.length with
    | [] => none
    | _ :: rest => some (String.ofList name, String.ofList absent, rest)
  | _ => none

/-- The characters with their variables replaced.  The count bounds the number of characters. -/
def replaceFrom (lookup : String → Option String) : Nat → List Char → List Char
  | 0, cs => cs
  | _ + 1, [] => []
  | fuel + 1, c :: cs =>
    let taken := if c = '$' ∧ cs.head? = some '{' then takeVariable (cs.drop 1) else none
    match taken with
    | some (name, absent, rest) =>
      ((lookup name).getD absent).toList ++ replaceFrom lookup fuel rest
    | none => c :: replaceFrom lookup fuel cs

/-- The text with its variables replaced. -/
def replace (lookup : String → Option String) (s : String) : String :=
  String.ofList (replaceFrom lookup s.length s.toList)

/-- Sets an entry: in its place when the name is there, else at the end. -/
def put (entry : Entry) : List Entry → List Entry
  | [] => [entry]
  | e :: rest => if e.1 = entry.1 then entry :: rest else e :: put entry rest

/-- What a name stands for: the value of an earlier entry, or else of the environment. -/
def meaning (environment : List (String × String)) (earlier : List Entry) (name : String) :
    Option String :=
  match earlier.lookup name with
  | some value => some (value.getD "")
  | none => environment.lookup name

/-- The entries with the variables in their values replaced, each name once. -/
def resolve (environment : List (String × String)) (given : List Entry) : List Entry :=
  given.foldl (fun found e => put (e.1, e.2.map (replace (meaning environment found))) found) []

/-- The entries of a file in an environment. -/
def read (environment : List (String × String)) (text : String) : List Entry :=
  resolve environment (entries text)

end AccessControl.Settings.File
