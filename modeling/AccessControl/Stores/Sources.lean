import AccessControl.Failure
import AccessControl.Order
import AccessControl.Value.Member

/-! # Where store ids are looked for

A request carries three buckets of data: what its path, its query and its body say.  The sources
of a rule name, for each bucket, the dotted keys under which store ids may stand.  A rule without
a configuration uses `Sources.standard`; a configuration that names some buckets searches those
only (`Sources.read`). -/

namespace AccessControl.Stores

/-! ### Buckets -/

/-- A part of the request's data. -/
inductive Bucket where
  | path
  | query
  | body
  deriving DecidableEq, Repr

namespace Bucket

/-- All buckets, in the order they are searched. -/
def all : List Bucket := [path, query, body]

/-- The name of a bucket. -/
def name : Bucket → String
  | path => "path"
  | query => "query"
  | body => "body"

/-- The names of all buckets. -/
def names : List String := all.map name

end Bucket

/-! ### Keys of a bucket -/

/-- A key without white space, and then without dots, at its ends. -/
def cleanKey (key : String) : String := Text.stripOf (· == '.') (Text.strip key)

/-- The texts among which the keys of a bucket are, or why the value holds no keys. -/
def keyTexts : Value → Except Failure (List String)
  | .null => .ok []
  | .text key => .ok [key]
  | v =>
    match v.elements with
    | none => .error (.type (some "Store id source keys must be a string or a list of strings"))
    | some items =>
      match items.mapM Value.text? with
      | none => .error (.type (some "Store id source keys must be strings"))
      | some keys => .ok keys

/-- Cleaned keys without empty ones and repeats. -/
def cleanKeys (keys : List String) : List String :=
  Text.distinct ((keys.map cleanKey).filter (· != ""))

/-- The keys that a configured value gives a bucket. -/
def readKeys (v : Value) : Except Failure (List String) := (keyTexts v).map cleanKeys

/-! ### Sources -/

/-- Dotted keys for each bucket. -/
structure Sources where
  path : List String
  query : List String
  body : List String
  deriving DecidableEq, Repr

namespace Sources

/-- The sources of a rule without a configuration. -/
def standard : Sources where
  path := ["store_id", "storeId", "store"]
  query := ["store_id", "store_ids", "storeId", "storeIds"]
  body := ["store_id", "store_ids", "storeId", "storeIds", "filters.store_id", "filters.store_ids"]

/-- The sources that name no store at all. -/
def none : Sources := ⟨[], [], []⟩

/-- The keys for a bucket. -/
def keys (s : Sources) : Bucket → List String
  | .path => s.path
  | .query => s.query
  | .body => s.body

/-- The members of a configuration that name no bucket. -/
def unknownBuckets (names : List Value) : List Value :=
  names.filter fun v => !(v.text?.any Bucket.names.contains)

/-- The failure for unknown buckets: they are listed when all are texts. -/
def unknownFailure (unknown : List Value) : Failure :=
  match unknown.mapM Value.text? with
  | some names =>
    .value ("Unknown store id source buckets: " ++ String.intercalate ", " (ascendingTexts names))
  | _ => .type .none

/-- The sources in an object whose names are all known. -/
def readFields (fields : Fields) : Except Failure Sources := do
  let bucket (b : Bucket) : Except Failure (List String) :=
    readKeys ((fields.get? b.name).getD .null)
  let path ← bucket .path
  let query ← bucket .query
  let body ← bucket .body
  return ⟨path, query, body⟩

/-- The sources that a configuration denotes; nothing at all denotes the standard ones. -/
def read (data : Value) : Except Failure Sources :=
  if !data.isTruthy then .ok standard
  else
    match data.elements with
    | .none => .error (.type .none)
    | some names =>
      if !names.all Value.isScalar then .error (.type .none)
      else if unknownBuckets names != [] then .error (unknownFailure (unknownBuckets names))
      else
        match data with
        | .object fields => readFields fields
        | _ => .error .shape

/-- The configuration that denotes the sources. -/
def toValue (s : Sources) : Value :=
  .object (Bucket.all.map fun b => (b.name, Value.texts (s.keys b)))

end Sources
end AccessControl.Stores
