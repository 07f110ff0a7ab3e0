import AccessControl.Database.Seeding
import AccessControl.Text.Case

/-! # Scopes

Before its tables are created, the database has none, and every statement fails.  What is
done in a scope is saved as a whole when the scope ends, and given up as a whole when it
is left by a failure. -/

namespace AccessControl.Database

/-! ### Missing tables -/

/-- The tables that describe the database itself; they are always there. -/
def catalogNames : List String :=
  ["sqlite_master", "sqlite_schema", "sqlite_temp_master", "sqlite_temp_schema"]

/-- The names that are not names of tables, up to the case of ASCII letters. -/
def missingTables (created : Bool) (names : List String) : List String :=
  let known := if created then catalogNames ++ tableNames else catalogNames
  names.filter fun name => !known.contains (Text.asciiLower name)

/-- The failure of names that are not names of tables. -/
def missingFailure (names : List String) : Failure :=
  .aborted ("Missing required tables: " ++ String.intercalate ", " names ++ ".")

/-! ### Scopes -/

/-- Adds stores in a scope, which may end with a failure: it does unless the failure counts as
nothing. -/
def inScope (t : Option Tables) (codes : List Value) (failure : Value) :
    Except Failure (Option Tables) := do
  let t ← match t with
    | some tables => some <$> tables.addStores codes
    | none => if codes.isEmpty then pure none else .error .noTable
  if failure.isTruthy then .error (.aborted failure.display)
  else return t

end AccessControl.Database
