import AccessControl.Text.Numeral

/-! # Failures

Everything that can stop an operation, by cause.  Decisions are never failures: a request that is
not allowed gets a verdict. -/

namespace AccessControl

/-- A step toward the place of a problem in a structured input. -/
inductive Place where
  | name (field : String)
  | index (i : Nat)
  deriving DecidableEq, Repr

/-- A problem found while an input is checked: where, of which kind, and the text of a failed
check. -/
structure Issue where
  place : List Place
  kind : String
  text : Option String
  deriving DecidableEq, Repr

/-- Why an operation stopped. -/
inductive Failure where
  /-- A path pattern cannot be compiled. -/
  | pattern (text : String)
  /-- A rule was refused; every problem is listed. -/
  | rule (errors : List String)
  /-- A hierarchy edge was refused; every problem is listed. -/
  | edge (errors : List String)
  /-- An assignment was refused; every problem is listed. -/
  | assignment (errors : List String)
  /-- There is no rule with the number of the given text. -/
  | noRule (id : String)
  /-- There is no such hierarchy edge. -/
  | noEdge
  /-- The cache cannot be reached. -/
  | cacheDown (text : String)
  /-- A value is outside what is allowed. -/
  | value (text : String)
  /-- A value has the wrong type; the text is given when the caller has to see it. -/
  | type (text : Option String)
  /-- A value that has to be an object, or a text, is something else. -/
  | shape
  /-- A field that has to be there is missing. -/
  | missing (name : String)
  /-- A number is outside the range of its representation. -/
  | range
  /-- A text is too long to be held. -/
  | memory
  /-- The system refuses what it is given: a moment beyond its clock, a name without characters. -/
  | system
  /-- A row breaks a constraint of the tables. -/
  | conflict
  /-- A value cannot be passed to the database. -/
  | unbindable
  /-- A value is none that a column can be set to. -/
  | unfit
  /-- A column that is to be set does not exist. -/
  | noColumn
  /-- What a row is asked for by has not the parts of a key. -/
  | malformedKey
  /-- A table is missing. -/
  | noTable
  /-- A database file cannot be opened. -/
  | unopened
  /-- An address cannot be read. -/
  | address
  /-- There is no module of the name. -/
  | unknownModule
  /-- A module is not there. -/
  | absentModule
  /-- An input does not fit its description. -/
  | schema (issues : List Issue)
  /-- An operation was given up. -/
  | aborted (text : String)
  deriving DecidableEq, Repr

namespace Failure

/-- The failure of a text that is no whole number. -/
def numeral (text : String) (e : Text.NumeralError) : Failure := .value (e.message text)

/-- The failure of a whole number whose numeral would be too long. -/
def overlong : Failure :=
  .value ("Exceeds the limit (" ++ Text.natText Text.digitLimit
    ++ " digits) for integer string conversion; "
    ++ "use sys.set_int_max_str_digits() to increase the limit")

/-- The message that lists errors. -/
def listed (errors : List String) : String :=
  if errors.isEmpty then "Validation failed" else String.intercalate "; " errors

/-- The message of a failure, when it has one. -/
def message : Failure → Option String
  | .pattern text => some text
  | .rule errors => some (listed errors)
  | .edge errors => some (listed errors)
  | .assignment errors => some (listed errors)
  | .noRule id => some ("Rule " ++ id ++ " not found")
  | .noEdge => some "Hierarchy relationship not found"
  | .cacheDown text => some text
  | .value text => some text
  | .type text => text
  | .aborted text => some text
  | _ => none

/-- The list of errors of a failure, when it carries one. -/
def errors : Failure → Option (List String)
  | .rule errors => some errors
  | .edge errors => some errors
  | .assignment errors => some errors
  | _ => none

end Failure
end AccessControl
