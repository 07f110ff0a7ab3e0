import AccessControl.Value.Display
import AccessControl.Value.Integer
import AccessControl.Value.Member

/-! # Verdicts

A verdict says whether a request is authorized, for which reason, what permissions the rule asks
for, and which stores were looked at.  `Verdict.toValue` is the form that is cached and answered,
`Verdict.payload` the form without the rule; `Verdict.read` takes a cached form back and accepts
whatever values an entry may hold. -/

namespace AccessControl

/-! ### Reasons -/

/-- Why a request is authorized or denied. -/
inductive Reason where
  | superRole
  | noRule
  | roles
  | permissionsAny
  | permissionsAll
  | deny
  | storeAllAccess
  | storeAll
  | storeAny
  | denyStoreAll
  | denyStoreAny
  | denyNoStore
  | denyAllStores
  | denyInvalidMode
  deriving DecidableEq, Repr

/-- The code of a reason in a verdict. -/
def Reason.code : Reason → String
  | superRole => "super-role"
  | noRule => "no-rule"
  | roles => "roles"
  | permissionsAny => "permissions_any"
  | permissionsAll => "permissions_all"
  | deny => "deny"
  | storeAllAccess => "store-all-access"
  | storeAll => "store-all"
  | storeAny => "store-any"
  | denyStoreAll => "deny-store-all"
  | denyStoreAny => "deny-store-any"
  | denyNoStore => "deny-no-store"
  | denyAllStores => "deny-all-stores"
  | denyInvalidMode => "deny-invalid-store-mode"

/-! ### Answers by store -/

/-- The answer for each store, in the order in which the stores were first met. -/
abbrev StoreAnswers := List (Value × Bool)

/-- Sets the answer for a store: in its place when it is there, else at the end. -/
def StoreAnswers.set (answers : StoreAnswers) (store : Value) (allowed : Bool) : StoreAnswers :=
  match answers with
  | [] => [(store, allowed)]
  | a :: rest =>
    if a.1.alike store then (a.1, allowed) :: rest else a :: StoreAnswers.set rest store allowed

/-! ### Verdicts -/

/-- Which stores a verdict is about. -/
structure StoreMeta where
  ids : List Value
  mode : Value
  perStore : Option StoreAnswers
  deriving BEq

/-- The outcome of a decision. -/
structure Verdict where
  authorized : Bool
  grantedBy : String
  required : List Value
  stores : StoreMeta
  ruleId : Value
  deriving BEq

namespace StoreMeta

/-- No stores, in a mode. -/
def ofMode (mode : String) : StoreMeta := ⟨[], .text mode, none⟩

/-- The answers for stores as fields. -/
def answerFields (answers : StoreAnswers) : Fields :=
  Fields.ofPairs (answers.map fun a => (a.1.display, .bool a.2))

/-- The stores of a verdict as an object. -/
def toValue (m : StoreMeta) : Value :=
  .object ([("store_ids", .list m.ids), ("store_mode", m.mode)] ++
    match m.perStore with
    | some answers => [("per_store", .object (answerFields answers))]
    | none => [])

end StoreMeta

namespace Verdict

/-- The form of a verdict for the caller's service. -/
def payloadFields (v : Verdict) : Fields :=
  [("authorized", .bool v.authorized), ("required_permissions", .list v.required),
    ("granted_by", .text v.grantedBy), ("store", v.stores.toValue)]

/-- The form of a verdict for the caller's service. -/
def payload (v : Verdict) : Value := .object v.payloadFields

/-- The whole verdict as an object. -/
def toValue (v : Verdict) : Value := .object (v.payloadFields ++ [("rule_id", v.ruleId)])

/-- Do two verdicts say the same? -/
def alike (v w : Verdict) : Bool := v.toValue.alike w.toValue

/-! ### Restored verdicts -/

/-- A field that has to be there. -/
def fieldOf (fields : Fields) (name : String) : Except Failure Value :=
  match fields.get? name with
  | some v => .ok v
  | none => .error (.missing name)

/-- What a value that may be nothing at all is walked through. -/
def walk (v : Value) : Except Failure (List Value) :=
  if !v.isTruthy then .ok []
  else
    match v.elements with
    | some items => .ok items
    | none => .error (.type none)

/-- The answers in the fields of an object: equal numbers are one store. -/
def readAnswers (answers : StoreAnswers) : List (String × Value) → Except Failure StoreAnswers
  | [] => .ok answers
  | f :: fs => do
    let store ← (Text.readInt f.1).mapError (Failure.numeral f.1)
    readAnswers (answers.set (.int store) f.2.isTruthy) fs

/-- The answers for stores in a value, null for none. -/
def readPerStore : Value → Except Failure (Option StoreAnswers)
  | .null => .ok none
  | .object fields => (readAnswers [] fields).map some
  | _ => .error .shape

/-- The fields of an object, of nothing at all none. -/
def readFields (v : Value) : Except Failure Fields :=
  if !v.isTruthy then .ok []
  else
    match v with
    | .object fields => .ok fields
    | _ => .error .shape

/-- The mode of the stores in an entry. -/
def readMode (fields : Fields) : String :=
  match fields.get? "store_mode" with
  | some v => v.display
  | none => "none"

/-- The verdict that a cached entry holds. -/
def read (data : Value) : Except Failure Verdict :=
  match data with
  | .object fields => do
    let store ← readFields (data.field "store")
    let authorized ← fieldOf fields "authorized"
    let grantedBy ← fieldOf fields "granted_by"
    let required ← walk (data.field "required_permissions")
    let idValues ← walk ((store.get? "store_ids").getD .null)
    let ids ← idValues.mapM Value.toInt
    let perStore ← readPerStore ((store.get? "per_store").getD .null)
    return {
      authorized := authorized.isTruthy
      grantedBy := grantedBy.display
      required := required
      stores := ⟨ids.map .int, .text (readMode store), perStore⟩
      ruleId := data.field "rule_id" }
  | _ => .error .shape

end Verdict
end AccessControl
