import AccessControl.Order
import AccessControl.Text.Blank

/-! # Places of files

A file is named by the directories on the way to it.  Two points lead back up, and one point or
nothing leads nowhere.  Directories that are missing on the way are made before the file is. -/

namespace AccessControl.Address

/-- The names on the way to a file. -/
def segments (path : String) : List String :=
  (Text.split '/' path).filter fun s => s != "" && s != "."

/-- Goes on from a place, whose names are given from the innermost on. -/
def goOn (place : List String) (segment : String) : List String :=
  if segment != ".." then segment :: place
  else
    match place with
    | [] => [segment]
    | inner :: outer => if inner == ".." then segment :: place else outer

/-- The place to which names lead, from the outermost on. -/
def placeOf (names : List String) : List String := (names.foldl goOn []).reverse

/-- The text of a place. -/
def placeText (place : List String) : String :=
  if place.isEmpty then "." else String.intercalate "/" place

/-- The places that are passed on the way to a file, the file included. -/
def passed (path : String) : List (List String) :=
  let names := segments path
  (List.range names.length).map fun i => placeOf (names.take (i + 1))

/-- Is the place below the start? -/
def isBelow (place : List String) : Bool := !place.isEmpty && place.head? != some ".."

/-- The places below the start that exist once the file is made. -/
def created (path : String) : List String :=
  ascendingTexts (((passed path).filter isBelow).map (String.intercalate "/"))

/-- Can the name be that of a file?  It cannot when it leads to a directory on the way,
or up from the start. -/
def namesFile (path : String) : Bool :=
  let place := placeOf (segments path)
  !(passed path).dropLast.contains place && place.getLast?.any (· != "..")

/-- The file in another way of writing: without detours. -/
def shortened (path : String) : String := placeText (placeOf (segments path))

end AccessControl.Address
