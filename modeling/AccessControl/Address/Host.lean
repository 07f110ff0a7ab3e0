import AccessControl.Address.Percent
import AccessControl.Failure

/-! # Hosts in addresses

The place in an address is an account, an at sign, and a host with the number of its socket.  A host
in brackets is an IPv6 address, perhaps with a zone, or an address of a version to come; nothing
else stands beside the brackets but the number of the socket.  Characters that stand for a delimiter
under compatibility normalization are refused. -/

namespace AccessControl.Address

/-! ### Numeric addresses -/

/-- Is the text one of the four numbers of an IPv4 address? -/
def isOctet (cs : List Char) : Bool :=
  Text.isDigitRun cs && cs.length ≤ 3 && Text.ofDigitRun cs ≤ 255 &&
    (cs == ['0'] || cs.head? != some '0')

/-- Is the text an IPv4 address? -/
def isIPv4 (cs : List Char) : Bool :=
  let octets := Text.splitOn '.' cs
  octets.length == 4 && octets.all isOctet

/-- Is the text a group of hexadecimal digits? -/
def isGroup (cs : List Char) : Bool :=
  !cs.isEmpty && cs.length ≤ 4 && cs.all fun c => (hexValue c).isSome

/-- The groups of an IPv6 address; an IPv4 address at its end counts as two. -/
def groups (parts : List (List Char)) : Option (List (List Char)) :=
  match parts.getLast? with
  | some last =>
    if !last.contains '.' then some parts
    else if isIPv4 last then some (parts.dropLast ++ [['0'], ['0']])
    else none
  | none => none

/-- Are these the groups on one side of the gap?  A side without groups is written as an empty
one. -/
def isSide (side : List (List Char)) : Bool := side == [[]] || side.all isGroup

/-- The number of groups on a side. -/
def sideLength (side : List (List Char)) : Nat := if side == [[]] then 0 else side.length

/-- The number of groups of an IPv6 address. -/
def groupCount : Nat := 8

/-- Are these the groups of an IPv6 address?  There may be one gap, an empty group that is neither
the first nor the last and stands for at least one group of zeros. -/
def areGroups (parts : List (List Char)) : Bool :=
  if parts.length < 3 || groupCount + 1 < parts.length then false
  else
    match (List.range parts.length).filter fun i => 0 < i && i + 1 < parts.length &&
      parts[i]? == some [] with
    | [] => parts.length == groupCount && parts.all isGroup
    | [gap] =>
      let before := parts.take gap
      let after := parts.drop (gap + 1)
      isSide before && isSide after && sideLength before + sideLength after < groupCount
    | _ => false

/-- Is the text an IPv6 address, perhaps with a zone after a percent sign? -/
def isIPv6 (cs : List Char) : Bool :=
  let (address, zone) := cutAt (· == '%') cs
  let hasZone := match zone with
    | [] => true
    | _ :: name => !name.isEmpty && !name.contains '%'
  hasZone && ((groups (Text.splitOn ':' address)).map areGroups).getD false

/-- Is the text an address of a version to come: `v`, hexadecimal digits, a point and anything
more? -/
def isFuture (cs : List Char) : Bool :=
  let (version, rest) := cutAt (· == '.') (cs.drop 1)
  !version.isEmpty && version.all (fun c => (hexValue c).isSome) && 1 < rest.length &&
    !rest.contains '\n'

/-- Checks a host in brackets. -/
def checkBracketed (host : List Char) : Except Failure Unit :=
  if host.head? == some 'v' then
    if isFuture host then .ok () else .error (.value "IPvFuture address is invalid")
  else if isIPv4 host then .error (.value "An IPv4 address cannot be in brackets")
  else if isIPv6 host then .ok ()
  else
    let shown := Text.quoted (String.ofList host)
    .error (.value (shown ++ " does not appear to be an IPv4 or IPv6 address"))

/-! ### Places -/

/-- The failure of a place whose brackets are not around its host. -/
def wrongBrackets : Failure := .value "Invalid IPv6 URL"

/-- Checks the brackets in a place. -/
def checkBrackets (place : List Char) : Except Failure Unit :=
  let opens := place.contains '['
  let closes := place.contains ']'
  if opens != closes then .error wrongBrackets
  else if !opens then .ok ()
  else
    let site := ((splitLast '@' place).map (·.2)).getD place
    match splitFirst '[' site with
    | some (before, inside) =>
      let (host, after) := (splitFirst ']' inside).getD (inside, [])
      if !before.isEmpty || !(after.head?.all (· == ':')) then
        .error wrongBrackets
      else checkBracketed host
    | none => checkBracketed (cutAt (· == ':') site).1

/-- The characters that compatibility normalization turns into texts with one of the
delimiters of an address. -/
def disguised : List Nat :=
  [0x2047, 0x2048, 0x2049, 0x2100, 0x2101, 0x2105, 0x2106, 0x2A74, 0xFE13, 0xFE16, 0xFE55, 0xFE56,
   0xFE5F, 0xFE6B, 0xFF03, 0xFF0F, 0xFF1A, 0xFF1F, 0xFF20]

/-- Checks that no delimiter is hidden in a place. -/
def checkHidden (place : List Char) : Except Failure Unit :=
  if place.any fun c => disguised.contains c.toNat then
    .error (.value
      ("netloc '" ++ String.ofList place ++
        "' contains invalid characters under NFKC normalization"))
  else .ok ()

/-- Checks the place in an address. -/
def checkPlace (place : List Char) : Except Failure Unit := do
  checkBrackets place
  checkHidden place

end AccessControl.Address
