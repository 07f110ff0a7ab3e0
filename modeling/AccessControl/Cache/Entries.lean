/-! # Entries that expire

What a cache holds: a value under each key, with the moment at which it stops being there.  Every
operation is given the present moment.  An entry whose moment has come is removed when its key is
met again; until then it lies there unseen (`find`). -/

namespace AccessControl.Cache

/-- A value under a key, for ever or until a moment. -/
structure Entry (α : Type) where
  key : String
  value : α
  expiresAt : Option Int
  deriving Repr

/-- Is the entry there at a moment? -/
def Entry.isLive {α : Type} (e : Entry α) (now : Int) : Bool :=
  match e.expiresAt with
  | none => true
  | some t => decide (now < t)

/-- The moment at which something that is kept for so many seconds stops being there. -/
def expiry (now : Int) (ttl : Option Int) : Option Int := ttl.map (now + ·)

/-- Entries, each key at most once. -/
abbrev Entries (α : Type) := List (Entry α)

namespace Entries

variable {α : Type}

/-- The entries without the one under a key. -/
def erase (es : Entries α) (key : String) : Entries α := es.filter (·.key != key)

/-- The entries with an entry in the place of the one under its key. -/
def put (es : Entries α) (e : Entry α) : Entries α := erase es e.key ++ [e]

/-- The entry under a key that is there at a moment; one that has expired is removed. -/
def find (es : Entries α) (now : Int) (key : String) : Option (Entry α) × Entries α :=
  match es.find? (·.key == key) with
  | none => (none, es)
  | some e => if e.isLive now then (some e, es) else (none, erase es key)

/-- Removes the entries under keys, one key after the other, and counts those that were there. -/
def remove (es : Entries α) (now : Int) : List String → Nat × Entries α
  | [] => (0, es)
  | key :: keys =>
    let (found, es) := find es now key
    let (count, es) := remove (erase es key) now keys
    ((if found.isSome then 1 else 0) + count, es)

/-- The entries that are there at a moment. -/
def live (es : Entries α) (now : Int) : Entries α := es.filter (·.isLive now)

end Entries
end AccessControl.Cache
