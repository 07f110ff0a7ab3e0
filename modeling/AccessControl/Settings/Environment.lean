import AccessControl.Settings.File
import AccessControl.Settings.Read
import AccessControl.Text.Case

/-! # Where settings come from

A setting is given as a value, in the environment, or in an environment file; the first of these
that has it decides.  The environment and the file name a setting with `AUTHZ_` in front, in any
case, and an empty text there is the same as none.  Settings may be kept, so that the environment is
looked at only once (`Kept`). -/

namespace AccessControl.Settings

/-- What stands in front of the name of a setting in the environment. -/
def environmentLead : String := "authz_"

/-! ### The environment -/

/-- A variable of the environment: its name has characters but no equals sign, and it is a text. -/
def variableOf (f : String × Value) : Except Failure (String × String) :=
  match f.2 with
  | .text s =>
    if f.1.contains '\x00' || s.contains '\x00' then .error (.value "embedded null byte")
    else if f.1.contains '=' then .error (.value "illegal environment variable name")
    else if f.1 = "" then .error .system
    else .ok (f.1, s)
  | _ => .error (.type none)

/-- The environment with the given fields as its variables. -/
def environmentOf (fields : Fields) : Except Failure (List (String × String)) :=
  fields.mapM variableOf

/-! ### Sources -/

/-- What a source with names in any case gives for a setting; the last of equal names counts. -/
def fromEntries (entries : List File.Entry) (name : String) : Option Value :=
  let wanted := environmentLead ++ name
  let found := entries.filter fun e => e.2 != some "" && Text.lower e.1 == wanted
  (found.getLast?.bind (·.2)).map .text

/-- What the given values hold for a setting; names are in any case, and the first
of equal ones counts. -/
def fromValues (values : Fields) (name : String) : Option Value :=
  (values.find? fun f => Text.lower f.1 == name).map (·.2)

/-- The value of a setting from the first source that has it. -/
def given (values : Fields) (environment file : List File.Entry) (name : String) : Option Value :=
  ((fromValues values name).or (fromEntries environment name)).or (fromEntries file name)

/-- The settings from given values, the environment and the text of a file. -/
def load (values : Fields) (environment : List (String × String)) (file : String) :
    Except Failure Settings :=
  let present := environment.map fun e => (e.1, some e.2)
  let entries := File.read environment file
  read (names.filterMap fun name => (given values present entries name).map fun v => (name, v))

/-! ### Kept settings -/

/-- The settings that were read last, if any are kept. -/
structure Kept where
  settings : Option Settings
  deriving DecidableEq, Repr

namespace Kept

/-- No settings are kept. -/
def none : Kept := ⟨.none⟩

/-- The kept settings, or else those of the environment, which are then kept when they can be
read. -/
def get (kept : Kept) (environment : List (String × String)) : Except Failure Settings × Kept :=
  match kept.settings with
  | some settings => (.ok settings, kept)
  | .none =>
    match load [] environment "" with
    | .ok settings => (.ok settings, ⟨some settings⟩)
    | .error e => (.error e, none)

/-- The settings of the environment, whatever was kept before. -/
def reload (environment : List (String × String)) : Except Failure Settings × Kept :=
  none.get environment

end Kept
end AccessControl.Settings
