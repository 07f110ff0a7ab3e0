import AccessControl.Proofs.Database.Answers
import AccessControl.Proofs.Policy.Callers
import AccessControl.Proofs.Rule.WellFormed
import AccessControl.Proofs.Session.Edges
import AccessControl.Session.Authorization
import Mathlib

/-! # Who a user is as a caller

The global roles of a user and the permissions that come with them or are the user's own are
said here by the links between the rows (`HasGlobalRole`, `HasGlobalPermission`).  A caller
that is loaded has the names of these rows, without the white space at their ends, and no
blank one (`loadCaller_linked`).  So the names of the caller are those of the rows exactly
when all of these are trimmed. -/

namespace AccessControl

/-! ### Links -/

namespace Database.Tables

/-- The role is linked to the user. -/
def HasGlobalRole (t : Tables) (user : ℤ) (role : NamedRow) : Prop :=
  role ∈ t.roles ∧ (user, role.id) ∈ t.userRoles

/-- The permission is linked to the user, or to a global role of the user. -/
def HasGlobalPermission (t : Tables) (user : ℤ) (permission : NamedRow) : Prop :=
  permission ∈ t.permissions ∧
    ((∃ role, t.HasGlobalRole user role ∧ (role.id, permission.id) ∈ t.rolePermissions) ∨
    (user, permission.id) ∈ t.userPermissions)

variable {t : Tables} {user : ℤ}

theorem mem_globalRoles {role : NamedRow} :
    role ∈ t.globalRoles user ↔ t.HasGlobalRole user role := by
  rw [globalRoles, List.mem_filter, List.contains_iff_mem, HasGlobalRole]

theorem mem_globalPermissions {name : String} :
    name ∈ t.globalPermissions user ↔ ∃ permission, t.HasGlobalPermission user permission ∧
      permission.name = name := by
  rw [globalPermissions, permissionNames, mem_ascendingTexts, List.mem_map]
  refine exists_congr fun permission => and_congr_left fun _ => ?_
  rw [List.mem_filter, List.contains_iff_mem, List.mem_append, HasGlobalPermission]
  refine and_congr_right fun _ => or_congr ?_ ?_
  · simp only [attachedTo, List.mem_map, List.mem_filter, List.contains_iff_mem, mem_globalRoles]
    constructor
    · rintro ⟨⟨_, _⟩, ⟨hlink, role, hrole, rfl⟩, rfl⟩
      exact ⟨role, hrole, hlink⟩
    · rintro ⟨role, hrole, hlink⟩
      exact ⟨(role.id, permission.id), ⟨hlink, role, hrole, rfl⟩, rfl⟩
  · simp only [List.mem_map, List.mem_filter, beq_iff_eq]
    constructor
    · rintro ⟨⟨_, _⟩, ⟨hlink, rfl⟩, rfl⟩
      exact hlink
    · exact fun hlink => ⟨(user, permission.id), ⟨hlink, rfl⟩, rfl⟩

end Database.Tables

/-! ### Names -/

namespace Caller

open Database (NamedRow)

variable {names : List String} {P : NamedRow → Prop}
  (h : ∀ name, name ∈ names ↔ ∃ row, P row ∧ row.name = name)

include h

theorem mem_cleanNames_rows {name : String} :
    name ∈ cleanNames names ↔ name ≠ "" ∧ ∃ row, P row ∧ Text.strip row.name = name := by
  rw [mem_cleanNames]
  simp only [h]
  refine and_congr_right fun _ => ⟨?_, ?_⟩
  · rintro ⟨_, ⟨row, hrow, rfl⟩, hstrip⟩
    exact ⟨row, hrow, hstrip⟩
  · rintro ⟨row, hrow, hstrip⟩
    exact ⟨row.name, ⟨row, hrow, rfl⟩, hstrip⟩

/-- The cleaned names of rows are the names of the rows when these are trimmed, and only then. -/
theorem cleanNames_rows_iff :
    (∀ name, name ∈ cleanNames names ↔ ∃ row, P row ∧ row.name = name) ↔ ∀ row, P row →
      Text.Trimmed row.name := by
  constructor
  · intro hsame row hrow
    obtain ⟨hne, _, _, hstrip⟩ := (mem_cleanNames_rows h).mp ((hsame row.name).mpr ⟨row, hrow, rfl⟩)
    rw [← hstrip] at hne ⊢
    exact Text.trimmed_strip hne
  · intro htrimmed name
    rw [mem_cleanNames_rows h]
    constructor
    · rintro ⟨_, row, hrow, hstrip⟩
      exact ⟨row, hrow, (htrimmed row hrow).2.symm.trans hstrip⟩
    · rintro ⟨row, hrow, rfl⟩
      exact ⟨(htrimmed row hrow).1, row, hrow, (htrimmed row hrow).2⟩

end Caller

/-! ### Loading -/

namespace Session

open Database

theorem outcome_loadCaller (s : Session) (user : ℤ) {abilities : Value} {names : List String}
    (hnames : Caller.readNames abilities = .ok names) :
    outcome (loadCaller (.int user) abilities) s =
      (if fits user then
          .ok (.ofNames (.int user) ((s.tables.globalRoles user).map (·.name))
            (s.tables.globalPermissions user) names)
        else .error .range, s) := by
  unfold loadCaller
  simp only [outcome_bind, outcome_current, andThen_ok, asked_int, outcome_lift]
  split
  · simp only [andThen_ok, hnames, Option.elim_some, outcome_pure]
  · simp only [andThen_error]

/-- Loading a user as a caller changes nothing, and succeeds for every number that fits into a
column.  The caller has the trimmed names of the linked roles and permissions, and no blank one.  So
the roles of the caller are the names of the linked roles exactly when these are trimmed, and the
permissions likewise. -/
theorem loadCaller_linked (s : Session) (user : ℤ) {abilities : Value} {names : List String}
    (hnames : Caller.readNames abilities = .ok names) :
    ∃ caller : Caller,
      outcome (loadCaller (.int user) abilities) s =
        (if fits user then .ok caller else .error .range, s) ∧
      caller.userId = .int user ∧
      (∀ name, name ∈ caller.roles ↔
        name ≠ "" ∧ ∃ role, s.tables.HasGlobalRole user role ∧ Text.strip role.name = name) ∧
      (∀ name, name ∈ caller.permissions ↔
        name ≠ "" ∧ ∃ permission, s.tables.HasGlobalPermission user permission ∧
          Text.strip permission.name = name) ∧
      ((∀ name, name ∈ caller.roles ↔ ∃ role, s.tables.HasGlobalRole user role ∧ role.name = name) ↔
        ∀ role, s.tables.HasGlobalRole user role → Text.Trimmed role.name) ∧
      ((∀ name, name ∈ caller.permissions ↔
          ∃ permission, s.tables.HasGlobalPermission user permission ∧ permission.name = name) ↔
        ∀ permission, s.tables.HasGlobalPermission user permission →
          Text.Trimmed permission.name) := by
  have hroles : ∀ name, name ∈ (s.tables.globalRoles user).map (·.name) ↔
      ∃ role, s.tables.HasGlobalRole user role ∧ role.name = name := by
    simp only [List.mem_map, Tables.mem_globalRoles, implies_true]
  have hpermissions : ∀ name, name ∈ s.tables.globalPermissions user ↔
      ∃ permission, s.tables.HasGlobalPermission user permission ∧ permission.name = name :=
    fun _ => Tables.mem_globalPermissions
  exact ⟨_, outcome_loadCaller s user hnames, rfl, fun _ => Caller.mem_cleanNames_rows hroles,
    fun _ => Caller.mem_cleanNames_rows hpermissions, Caller.cleanNames_rows_iff hroles,
    Caller.cleanNames_rows_iff hpermissions⟩

/-- A clerk who may read orders as such, and remove them in person. -/
def oneClerk : Session :=
  let tables : Tables :=
    { Tables.empty with
      users := [⟨1, "ann", "ann@shop", true⟩]
      roles := [⟨1, "clerk", none⟩, ⟨2, "head", none⟩]
      permissions :=
        [⟨1, "orders.read", none⟩, ⟨2, "orders.delete", none⟩, ⟨3, "orders.export", none⟩]
      rolePermissions := [(1, 1), (2, 3)]
      userRoles := [(1, 1)]
      userPermissions := [(1, 2)] }
  { Session.start .standard ⟨.memory [], "authz", 0, [1], []⟩ with
    tables := tables, saved := tables }

/-- The clerk is loaded with the names of the one role and of the two permissions. -/
theorem loadCaller_linked_oneClerk :
    Caller.readNames (.list [.text "orders.read"]) = .ok ["orders.read"] ∧
    ∃ caller : Caller, outcome (loadCaller (.int 1) (.list [.text "orders.read"])) oneClerk =
      (.ok caller, oneClerk) ∧
      "clerk" ∈ caller.roles ∧ "orders.read" ∈ caller.permissions ∧
      "orders.delete" ∈ caller.permissions ∧
      "head" ∉ caller.roles ∧ "orders.export" ∉ caller.permissions := by
  have hnames : Caller.readNames (.list [.text "orders.read"]) = .ok ["orders.read"] := rfl
  have hclerk : oneClerk.tables.HasGlobalRole 1 ⟨1, "clerk", none⟩ := ⟨by decide, by decide⟩
  have hread : oneClerk.tables.HasGlobalPermission 1 ⟨1, "orders.read", none⟩ :=
    ⟨by decide, .inl ⟨_, hclerk, by decide⟩⟩
  have hdelete : oneClerk.tables.HasGlobalPermission 1 ⟨2, "orders.delete", none⟩ :=
    ⟨by decide, .inr (by decide)⟩
  have hhead : ∀ role ∈ oneClerk.tables.roles, (1, role.id) ∈ oneClerk.tables.userRoles →
      Text.strip role.name ≠ "head" ∧ (role.id, 3) ∉ oneClerk.tables.rolePermissions := by
    decide +kernel
  have hexport : ∀ permission ∈ oneClerk.tables.permissions,
      Text.strip permission.name = "orders.export" →
      permission.id = 3 := by decide +kernel
  obtain ⟨caller, hload, -, hroles, hpermissions, -⟩ := loadCaller_linked oneClerk 1 hnames
  refine ⟨hnames, caller, hload, ?_⟩
  simp only [hroles, hpermissions]
  refine ⟨⟨by decide, _, hclerk, by decide +kernel⟩, ⟨by decide, _, hread, by decide +kernel⟩,
    ⟨by decide, _, hdelete, by decide +kernel⟩, ?_, ?_⟩
  · rintro ⟨-, role, ⟨hrole, hlink⟩, hstrip⟩
    exact (hhead role hrole hlink).1 hstrip
  · rintro ⟨-, permission, ⟨hpermission, hlinks⟩, hstrip⟩
    rw [hexport permission hpermission hstrip] at hlinks
    rcases hlinks with ⟨role, ⟨hrole, huser⟩, hlink⟩ | hlink
    · exact (hhead role hrole huser).2 hlink
    · exact absurd hlink (by decide)

/-- A user with the one role `" super-admin "`. -/
def paddedRole : Session :=
  let tables : Tables :=
    { Tables.empty with
      users := [⟨1, "ann", "ann@shop", true⟩]
      roles := [⟨1, " super-admin ", none⟩]
      userRoles := [(1, 1)] }
  { Session.start .standard ⟨.memory [], "authz", 0, [1], []⟩ with
    tables := tables, saved := tables }

/-- The user is loaded with a role that no row has, and not with the one that is linked; every
request with a method is granted for it. -/
theorem loadCaller_paddedRole :
    ∃ caller : Caller, outcome (loadCaller (.int 1) .null) paddedRole = (.ok caller, paddedRole) ∧
      caller.roles = ["super-admin"] ∧
      (¬∃ role, paddedRole.tables.HasGlobalRole 1 role ∧ role.name = "super-admin") ∧
      (∃ role, paddedRole.tables.HasGlobalRole 1 role ∧ role.name = " super-admin ") ∧
      ∀ cached (request : Request), request.method = .text "GET" →
        (outcome (authorize cached request caller) paddedRole).1 =
          .ok (bareVerdict true .superRole) := by
  have hload := outcome_loadCaller paddedRole 1 (show Caller.readNames .null = .ok [] from rfl)
  have hroles : Caller.cleanNames ((paddedRole.tables.globalRoles 1).map (·.name)) =
      ["super-admin"] := by decide +kernel
  have hother : ∀ role ∈ paddedRole.tables.roles, role.name ≠ "super-admin" := by decide
  refine ⟨_, hload, hroles, ?_, ⟨⟨1, " super-admin ", none⟩, ⟨by decide, by decide⟩, rfl⟩,
    fun cached request hmethod => ?_⟩
  · rintro ⟨role, ⟨hrole, -⟩, hname⟩
    exact hother role hrole hname
  · have hlookup : request.lookupMethod = .ok (Text.upper (Text.strip "GET")) := by
      rw [Request.lookupMethod, hmethod]
      rfl
    have hsuper : paddedRole.settings.superRoles.any
        (Caller.cleanNames ((paddedRole.tables.globalRoles 1).map (·.name))).contains = true := by
      rw [hroles]
      decide
    unfold authorize
    simp only [outcome_bind, outcome_current, andThen_ok, hlookup, outcome_lift, Caller.ofNames,
      hsuper, if_true]
    rfl

end Session
end AccessControl
