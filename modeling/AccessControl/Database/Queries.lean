import AccessControl.Database.Tables
import AccessControl.Hierarchy.Graph
import AccessControl.Order
import AccessControl.Text.Case

/-! # Questions to the tables

What the rows say, without any cache: the active hierarchy of a store, the roles of a user, the
permissions of roles, and the rules that are looked for. -/

namespace AccessControl.Database.Tables

/-! ### Hierarchy -/

/-- The active edges of a store, in order. -/
def activeEdges (t : Tables) (store : Int) : List EdgeRow :=
  t.edges.filter fun e => e.store == store && e.isActive

/-- The graph of the active edges of a store. -/
def graphOf (t : Tables) (store : Int) : RoleGraph Int :=
  .ofEdges ((t.activeEdges store).map fun e => (e.higher, e.lower))

/-- The edge between two roles in a store, active or not. -/
def edge? (t : Tables) (higher lower store : Int) : Option EdgeRow :=
  t.edges.find? (·.links higher lower store)

/-! ### Roles and permissions -/

/-- Puts a role or permission before the first one with a greater name. -/
def placeByName (r : NamedRow) : List NamedRow → List NamedRow
  | [] => [r]
  | s :: ss => if r.name ≤ s.name then r :: s :: ss else s :: placeByName r ss

/-- Roles or permissions by name. -/
def byName (rows : List NamedRow) : List NamedRow := rows.foldr placeByName []

/-- The roles with the numbers, by name. -/
def rolesWithIds (t : Tables) (ids : List Int) : List NamedRow :=
  byName (t.roles.filter (ids.contains ·.id))

/-- The names of the permissions with the numbers, in ascending order. -/
def permissionNames (t : Tables) (ids : List Int) : List String :=
  ascendingTexts ((t.permissions.filter (ids.contains ·.id)).map (·.name))

/-- The numbers of the permissions attached to roles. -/
def attachedTo (t : Tables) (roles : List Int) : List Int :=
  (t.rolePermissions.filter (roles.contains ·.1)).map (·.2)

/-- The names of the permissions attached to roles, in ascending order. -/
def permissionsOfRoles (t : Tables) (roles : List Int) : List String :=
  t.permissionNames (t.attachedTo roles)

/-! ### Assignments -/

/-- The roles that a user has in a store by active assignments. -/
def directRoles (t : Tables) (user store : Int) : List Int :=
  ascendingInts
    ((t.assignments.filter fun a => a.user == user && a.store == store && a.isActive).map (·.role))

/-- The assignment of a role to a user in a store, active or not. -/
def assignment? (t : Tables) (user role store : Int) : Option AssignmentRow :=
  t.assignments.find? (·.links user role store)

/-- Is a user assigned, actively, to every active store? -/
def coversActiveStores (t : Tables) (user : Int) : Bool :=
  (t.stores.filter (·.isActive)).all fun s =>
    t.assignments.any fun a => a.user == user && a.isActive && a.store == s.id

/-- Is there an active store? -/
def hasActiveStore (t : Tables) : Bool := t.stores.any (·.isActive)

/-- Puts an assignment before the first one that is after it. -/
def placeAssignment (less : AssignmentRow → AssignmentRow → Bool) (a : AssignmentRow) :
    List AssignmentRow → List AssignmentRow
  | [] => [a]
  | b :: bs => if less a b then a :: b :: bs else b :: placeAssignment less a bs

/-- The active assignments of a user, or those in one store, by store and role. -/
def assignmentsOfUser (t : Tables) (user : Int) (store : Option Int) : List AssignmentRow :=
  (t.assignments.filter fun a => a.user == user && a.isActive && store.all (· == a.store)).foldr
    (placeAssignment fun a b => a.store < b.store || (a.store == b.store && a.role ≤ b.role)) []

/-- The active assignments in a store, or those of one role, by user and role. -/
def assignmentsInStore (t : Tables) (store : Int) (role : Option Int) : List AssignmentRow :=
  (t.assignments.filter fun a => a.store == store && a.isActive && role.all (· == a.role)).foldr
    (placeAssignment fun a b => a.user < b.user || (a.user == b.user && a.role ≤ b.role)) []

/-! ### Callers -/

/-- The global roles of a user. -/
def globalRoles (t : Tables) (user : Int) : List NamedRow :=
  t.roles.filter fun r => t.userRoles.contains (user, r.id)

/-- The names of the global permissions of a user: those of the global roles and those of the
user. -/
def globalPermissions (t : Tables) (user : Int) : List String :=
  t.permissionNames (t.attachedTo ((t.globalRoles user).map (·.id)) ++
    (t.userPermissions.filter (·.1 == user)).map (·.2))

/-! ### Rules -/

/-- Does a text have the form of a search text?  A percent sign stands for any characters and an
underscore for one character. -/
def isLike : List Char → List Char → Bool
  | [], cs => cs.isEmpty
  | '%' :: p, cs =>
    isLike p cs || (match cs with | [] => false | _ :: rest => isLike ('%' :: p) rest)
  | '_' :: p, cs => match cs with | [] => false | _ :: rest => isLike p rest
  | c :: p, cs => match cs with | [] => false | d :: rest => c == d && isLike p rest
termination_by p cs => (p.length, cs.length)

/-- The characters of a text that are compared: none from the null character on. -/
def comparedChars (cs : List Char) : List Char := cs.takeWhile (· != Char.ofNat 0)

/-- A form with one percent sign for every run of them. -/
def squeezed : List Char → List Char
  | [] => []
  | c :: cs =>
    let rest := squeezed cs
    if c == '%' && rest.head? == some '%' then rest else c :: rest

/-- Does a text hold a search text, up to the case of ASCII letters? -/
def holds (term text : String) : Bool :=
  let form := comparedChars ('%' :: (Text.asciiLower term).toList ++ ['%'])
  isLike (squeezed form) (comparedChars (Text.asciiLower text).toList)

/-- Does a rule mention a search text? -/
def mentions (term : String) (r : RuleRow) : Bool :=
  holds term r.service || r.pattern.any (holds term) || r.routeName.any (holds term)

/-- Does the first rule come before the second, or at its place: by priority from
high to low, by number? -/
def leads (r s : RuleRow) : Bool :=
  isLower s.priority r.priority || (!isLower r.priority s.priority && r.id ≤ s.id)

/-- Puts a rule before the first one that is after it: by service, by priority from
high to low, by number. -/
def placeRule (r : RuleRow) : List RuleRow → List RuleRow
  | [] => [r]
  | s :: ss =>
    if r.service < s.service || (r.service == s.service && leads r s) then r :: s :: ss
    else s :: placeRule r ss

/-- Is the rule one of a service?  Its name is compared up to the case of ASCII letters. -/
def ofService (lowered : String) (r : RuleRow) : Bool := Text.asciiLower r.service == lowered

/-- The rules of a service that mention a search text, where these are given. -/
def listRules (t : Tables) (service : Option String) (term : Option String) : List RuleRow :=
  (t.rules.filter fun r => service.all (ofService · r) && term.all (mentions · r)).foldr placeRule
    []

/-- The services that rules name, in ascending order. -/
def services (t : Tables) : List String := ascendingTexts (t.rules.map (·.service))

/-- Puts a rule before the first one that is after it: by priority from high to low, by number. -/
def placeByPriority (r : RuleRow) : List RuleRow → List RuleRow
  | [] => [r]
  | s :: ss =>
    if leads r s then r :: s :: ss
    else s :: placeByPriority r ss

/-- The active rules of a service for a method or for any method, by priority and number. -/
def activeRules (t : Tables) (lowered method : String) : List RuleRow :=
  (t.rules.filter fun r => ofService lowered r && r.isActive &&
    (r.method == method || r.method == anyMethod)).foldr
    placeByPriority []

end AccessControl.Database.Tables
