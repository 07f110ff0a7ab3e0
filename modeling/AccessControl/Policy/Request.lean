import AccessControl.Stores.Context
import AccessControl.Text.Case
import AccessControl.Value.Display

/-! # Requests

What the caller's service wants to do: a method on a path or a named route of a service, with the
data in which store ids are looked for.  A payload is brought into a normal form (`Request.read`); a
request that is given directly keeps its fields as they are (`Request.readDirect`). -/

namespace AccessControl

/-- A request to decide about. -/
structure Request where
  service : Value
  method : Value
  path : Value
  routeName : Value
  context : Stores.Context

namespace Request

/-- The method of a request that names none. -/
def defaultMethod : String := "GET"

/-- The path of a request that names none. -/
def defaultPath : String := "/"

/-! ### Reading -/

/-- The text of a value, or another text when the value counts as nothing. -/
def textOr (absent : String) (v : Value) : String := if v.isTruthy then v.display else absent

/-- The text when it is not empty, else null. -/
def nonEmpty (s : String) : Value := if s = "" then .null else .text s

/-- The request in a payload. -/
def read (data : Value) : Except Failure Request :=
  match data with
  | .object _ => do
    let context ← Stores.Context.read (data.field "store_context")
    return {
      service := .text (Text.strip (textOr "" (data.field "service")))
      method := .text (Text.upper (Text.strip (textOr defaultMethod (data.field "method"))))
      path := .text (textOr defaultPath (data.field "path"))
      routeName := nonEmpty (Text.strip (textOr "" (data.field "route_name")))
      context := context }
  | _ => .error .shape

/-- The fields that a direct request may have. -/
def fieldNames : List String := ["service", "method", "path", "route_name", "store_context"]

/-- The request whose fields are those of an object. -/
def readDirect (data : Value) : Except Failure Request := do
  let context ← Stores.Context.read (data.field "store_context")
  let fields := data.fields?.getD []
  let field (name : String) (absent : Value) : Value := (fields.get? name).getD absent
  match fields.get? "service" with
  | none => .error (.type none)
  | some service =>
    if !fields.all (fieldNames.contains ·.1) then .error (.type none)
    else
      return {
        service := service
        method := field "method" (.text defaultMethod)
        path := field "path" (.text defaultPath)
        routeName := field "route_name" .null
        context := context }

/-! ### Views -/

/-- What is asked for: a route or else a path. -/
def target (r : Request) : String :=
  if r.routeName.isTruthy then "route:" ++ r.routeName.display else "path:" ++ r.path.display

/-- The method by which rules are looked up. -/
def lookupMethod (r : Request) : Except Failure String :=
  if !r.method.isTruthy then .ok defaultMethod
  else
    match r.method with
    | .text s => .ok (Text.upper (Text.strip s))
    | _ => .error .shape

end Request
end AccessControl
