import AccessControl.Stores.Sources

/-! # Store ids in a request

`dig` follows a dotted key through nested objects, by field name, and lists, by index.  `namedIds`
are the store ids that a value names: a positive whole number, a whole float, the numerals of a
comma-separated text, and what the items of a list name.  `storeIds` are the ids that the sources of
a rule find in the context of a request, in ascending order. -/

namespace AccessControl.Stores

/-! ### Dotted keys -/

/-- What stands in a value under one part of a key. -/
def child (node : Value) (part : List Char) : Except Text.NumeralError (Option Value) :=
  match node with
  | .object fields => .ok (Fields.get? fields (String.ofList part))
  | .list items =>
    if Text.isDigitRun part then (Text.readDigitRun part).map fun i => items[i]?
    else .ok none
  | _ => .ok none

/-- What stands in a value under the parts of a key; null when some part leads nowhere. -/
def follow (node : Value) : List (List Char) → Except Text.NumeralError Value
  | [] => .ok node
  | part :: parts =>
    match child node part with
    | .error e => .error e
    | .ok none => .ok .null
    | .ok (some next) => follow next parts

/-- What stands in a value under a dotted key; null when it leads nowhere. -/
def dig (data : Value) (key : String) : Except Text.NumeralError Value :=
  follow data (Text.splitOn '.' key.toList)

/-! ### Ids that a value names -/

/-- The id that a trimmed part of a text names. -/
def partId (part : List Char) : Except Text.NumeralError (List Int) :=
  if Text.isDigitRun part then
    (Text.readDigitRun part).map fun n => if 0 < n then [(n : Int)] else []
  else .ok []

/-- The ids that the parts of a text name, in order. -/
def partIds : List (List Char) → Except Text.NumeralError (List Int)
  | [] => .ok []
  | part :: parts => do
    let first ← partId (Text.trim Text.isBlank part)
    let rest ← partIds parts
    return first ++ rest

mutual
/-- The ids that a value names, in order. -/
def namedIds : Value → Except Text.NumeralError (List Int)
  | .int n => .ok (if 0 < n then [n] else [])
  | .float x => .ok (if x.isWhole && x.isPositive then x.truncate.toList else [])
  | .text s => partIds (Text.splitOn ',' s.toList)
  | .list items => namedIdsOf items
  | _ => .ok []
/-- The ids that the items of a list name, in order. -/
def namedIdsOf : List Value → Except Text.NumeralError (List Int)
  | [] => .ok []
  | v :: vs => do
    let first ← namedIds v
    let rest ← namedIdsOf vs
    return first ++ rest
end

/-! ### Contexts -/

/-- The data of a request, by bucket. -/
structure Context where
  path : Fields
  query : Fields
  body : Fields
  deriving BEq

namespace Context

/-- The context without data. -/
def empty : Context := ⟨[], [], []⟩

/-- The data of a bucket. -/
def bucket (c : Context) : Bucket → Fields
  | .path => c.path
  | .query => c.query
  | .body => c.body

/-- The context in an object: a bucket that is no object has no data. -/
def ofFields (fields : Fields) : Context :=
  let data (b : Bucket) : Fields := ((fields.get? b.name).bind Value.fields?).getD []
  ⟨data .path, data .query, data .body⟩

/-- The context that a value denotes; nothing at all denotes the empty one. -/
def read (data : Value) : Except Failure Context :=
  if !data.isTruthy then .ok empty
  else
    match data with
    | .object fields => .ok (ofFields fields)
    | _ => .error .shape

/-- The context as an object. -/
def toValue (c : Context) : Value :=
  .object (Bucket.all.map fun b => (b.name, .object (c.bucket b)))

end Context

/-! ### Search -/

/-- The ids named under some of the keys. -/
def idsUnder (data : Fields) : List String → Except Text.NumeralError (List Int)
  | [] => .ok []
  | key :: keys => do
    let found ← dig (.object data) key
    let first ← namedIds found
    let rest ← idsUnder data keys
    return first ++ rest

/-- The ids named in some of the buckets. -/
def idsIn (context : Context) (sources : Sources) :
    List Bucket → Except Text.NumeralError (List Int)
  | [] => .ok []
  | b :: bs => do
    let first ← idsUnder (context.bucket b) (sources.keys b)
    let rest ← idsIn context sources bs
    return first ++ rest

/-- The store ids that the sources find in a context, in ascending order. -/
def storeIds (context : Context) (sources : Sources) : Except Text.NumeralError (List Int) :=
  (idsIn context sources Bucket.all).map ascendingInts

end AccessControl.Stores
