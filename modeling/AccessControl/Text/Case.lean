import AccessControl.Text.CaseTable

/-! # Upper and lower case

Two foldings live side by side.  `asciiLower` and `asciiUpper` touch the twenty-six letters of
ASCII only, as the database does when it compares texts.  `lower` and `upper` are the full
Unicode mappings: a character may become several, and a capital sigma at the end of a word
becomes the final one. -/

namespace AccessControl.Text

/-! ### ASCII letters -/

/-- Lower case of an ASCII letter; every other character stays. -/
def asciiLowerChar (c : Char) : Char :=
  if 'A'.toNat ≤ c.toNat ∧ c.toNat ≤ 'Z'.toNat then Char.ofNat (c.toNat + 32) else c

/-- The text with its ASCII letters in lower case. -/
def asciiLower (s : String) : String := String.ofList (s.toList.map asciiLowerChar)

/-- Upper case of an ASCII letter; every other character stays. -/
def asciiUpperChar (c : Char) : Char :=
  if 'a'.toNat ≤ c.toNat ∧ c.toNat ≤ 'z'.toNat then Char.ofNat (c.toNat - 32) else c

/-- The text with its ASCII letters in upper case. -/
def asciiUpper (s : String) : String := String.ofList (s.toList.map asciiUpperChar)

/-! ### Unicode -/

/-- Is the code point in one of the closed ranges? -/
def inRanges (ranges : List (Nat × Nat)) (n : Nat) : Bool :=
  ranges.any fun r => r.1 ≤ n && n ≤ r.2

/-- The image of a code point under a list of runs; itself when no run has it. -/
def mapByRuns (runs : List (Nat × Nat × Nat × Int)) (n : Nat) : Nat :=
  match runs.find? fun (first, last, step, _) => first ≤ n && n ≤ last &&
    (n - first) % step == 0 with
  | some (_, _, _, shift) => (n + shift).toNat
  | none => n

/-- The image of a character under a table of sequences, else under a table of runs. -/
def mapChar (sequences : List (Nat × List Nat)) (runs : List (Nat × Nat × Nat × Int)) (c : Char) :
    List Char :=
  match sequences.lookup c.toNat with
  | some ns => ns.map Char.ofNat
  | none => [Char.ofNat (mapByRuns runs c.toNat)]

/-- Does the first character that is not skipped have a case? -/
def meetsCased (cs : List Char) : Bool :=
  match cs.dropWhile fun c => inRanges caseIgnorableRanges c.toNat with
  | [] => false
  | c :: _ => inRanges casedRanges c.toNat

/-- Lower case of one character between what stands before it (nearest first) and after it. -/
def lowerCharIn (before : List Char) (c : Char) (after : List Char) : List Char :=
  if c.toNat < 0x80 then [asciiLowerChar c]
  else if c = 'Σ' then
    if meetsCased before && !meetsCased after then ['ς'] else ['σ']
  else mapChar lowerSequences lowerRuns c

/-- Lower case of a list of characters, given what stands before it (nearest first). -/
def lowerFrom : List Char → List Char → List Char
  | _, [] => []
  | before, c :: after => lowerCharIn before c after ++ lowerFrom (c :: before) after

/-- The text in lower case. -/
def lower (s : String) : String := String.ofList (lowerFrom [] s.toList)

/-- Upper case of one character. -/
def upperChar (c : Char) : List Char :=
  if c.toNat < 0x80 then [asciiUpperChar c] else mapChar upperSequences upperRuns c

/-- The text in upper case. -/
def upper (s : String) : String := String.ofList (s.toList.flatMap upperChar)

end AccessControl.Text
