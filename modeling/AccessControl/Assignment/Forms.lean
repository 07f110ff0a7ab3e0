import AccessControl.Schema.Form

/-! # Forms for assignments

A grant gives a role in a store, with data of its own and perhaps inactive.  Several grants for one
user are asked for together. -/

namespace AccessControl

open Schema

/-- A role in a store. -/
structure Grant where
  role : Int
  store : Int
  data : Value
  isActive : Bool

namespace Grant

/-- The form of a grant. -/
def form : Form :=
  [intField "role_id", intField "store_id", (objectField "metadata").orNull,
    (boolField "is_active").standing (.bool true)]

/-- The grant in fields that went through the form. -/
def ofFields (fields : Fields) : Grant where
  role := ((fields.get? "role_id").bind Value.int?).getD 0
  store := ((fields.get? "store_id").bind Value.int?).getD 0
  data := (fields.get? "metadata").getD .null
  isActive := ((fields.get? "is_active").map Value.isTruthy).getD true

/-- The grant that an input asks for. -/
def read (v : Value) : Except Failure Grant := ofFields <$> form.read v

/-- The form of a stored assignment. -/
def recordForm : Form :=
  [intField "id", intField "user_id", intField "role_id", intField "store_id",
   boolField "is_active", stampField "created_at"]

end Grant
end AccessControl
