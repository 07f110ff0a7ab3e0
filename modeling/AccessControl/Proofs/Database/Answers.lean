import AccessControl.Database.Queries
import AccessControl.Proofs.Hierarchy.Reach
import Mathlib

/-! # What the tables answer

The permissions of a user in a store are those attached to the active roles of the user there and to
all roles that a path of active edges leads to from one of these (`mem_permissionsIn`).  A user
covers the active stores when each of them has an active assignment of the user
(`coversStores_iff`).  Both are functions of the tables alone. -/

namespace AccessControl
namespace Database
namespace Tables

/-! ### Paths of active edges -/

/-- In the active hierarchy of a store, the first role manages the second. -/
def Manages (t : Tables) (store higher lower : ℤ) : Prop :=
  ∃ e ∈ t.edges, e.store = store ∧ e.isActive = true ∧ e.higher = higher ∧ e.lower = lower

/-- There is a path of so many active edges of a store. -/
def Path (t : Tables) (store : ℤ) : ℕ → ℤ → ℤ → Prop
  | 0, a, b => a = b
  | n + 1, a, b => ∃ c, t.Path store n a c ∧ t.Manages store c b

theorem manages_graphOf (t : Tables) (store a b : ℤ) :
    (t.graphOf store).Manages a b ↔ t.Manages store a b := by
  rw [graphOf, RoleGraph.manages_ofEdges]
  simp only [activeEdges, Manages, List.mem_map, List.mem_filter, Bool.and_eq_true, beq_iff_eq,
    Prod.mk.injEq]
  constructor
  · rintro ⟨e, ⟨he, hs, hactive⟩, ha, hb⟩
    exact ⟨e, he, hs, hactive, ha, hb⟩
  · rintro ⟨e, he, hs, hactive, ha, hb⟩
    exact ⟨e, ⟨he, hs, hactive⟩, ha, hb⟩

theorem steps_graphOf (t : Tables) (store : ℤ) (n : ℕ) (a b : ℤ) :
    (t.graphOf store).Steps n a b ↔ t.Path store n a b := by
  induction n generalizing b with
  | zero => rfl
  | succ n ih =>
      refine exists_congr fun c => ?_
      rw [ih, manages_graphOf]

/-! ### Permissions -/

/-- The user has the role in the store by an active assignment. -/
def HasRole (t : Tables) (user store role : ℤ) : Prop :=
  ∃ a ∈ t.assignments, a.user = user ∧ a.store = store ∧ a.isActive = true ∧ a.role = role

/-- A permission of the name is attached to the role. -/
def Attached (t : Tables) (role : ℤ) (name : String) : Prop :=
  ∃ r ∈ t.permissions, (role, r.id) ∈ t.rolePermissions ∧ r.name = name

/-- A permission of the name is attached to a role that the user has in the store, or to one that a
path of at most so many active edges leads to from there. -/
def Grants (t : Tables) (depth : ℕ) (user store : ℤ) (name : String) : Prop :=
  ∃ role, t.Attached role name ∧
    (t.HasRole user store role ∨
      ∃ direct n, t.HasRole user store direct ∧ 1 ≤ n ∧ n ≤ depth ∧ t.Path store n direct role)

/-- The roles below some roles of a store, down to a depth. -/
def below (t : Tables) (depth store : ℤ) (roles : List ℤ) : List ℤ :=
  roles.flatMap fun role => (t.graphOf store).descendants role (some depth)

/-- The roles of a user in a store and the other roles below them. -/
def rolesIn (t : Tables) (depth user store : ℤ) : List ℤ :=
  let direct := t.directRoles user store
  direct ++ ascendingInts ((t.below depth store direct).filter (!direct.contains ·))

/-- The permissions of a user in a store. -/
def permissionsIn (t : Tables) (depth user store : ℤ) : List String :=
  t.permissionsOfRoles (t.rolesIn depth user store)

theorem mem_directRoles {t : Tables} {user store role : ℤ} :
    role ∈ t.directRoles user store ↔ t.HasRole user store role := by
  rw [directRoles, mem_ascendingInts, List.mem_map]
  simp only [List.mem_filter, Bool.and_eq_true, beq_iff_eq]
  constructor
  · rintro ⟨a, ⟨ha, ⟨hu, hs⟩, hactive⟩, hr⟩
    exact ⟨a, ha, hu, hs, hactive, hr⟩
  · rintro ⟨a, ha, hu, hs, hactive, hr⟩
    exact ⟨a, ⟨ha, ⟨hu, hs⟩, hactive⟩, hr⟩

theorem mem_permissionsOfRoles {t : Tables} {roles : List ℤ} {name : String} :
    name ∈ t.permissionsOfRoles roles ↔ ∃ role ∈ roles, t.Attached role name := by
  rw [permissionsOfRoles, permissionNames, mem_ascendingTexts, List.mem_map]
  simp only [attachedTo, List.mem_filter, List.contains_iff_mem, List.mem_map]
  constructor
  · rintro ⟨r, ⟨hr, ⟨role, id⟩, ⟨hlink, hrole⟩, rfl⟩, rfl⟩
    exact ⟨role, hrole, r, hr, hlink, rfl⟩
  · rintro ⟨role, hrole, r, hr, hlink, rfl⟩
    exact ⟨r, ⟨hr, (role, r.id), ⟨hlink, hrole⟩, rfl⟩, rfl⟩

theorem mem_below {t : Tables} {depth store role : ℤ} {roles : List ℤ} :
    role ∈ t.below depth store roles ↔
    ∃ direct ∈ roles, role ≠ direct ∧ ∃ n ≤ depth.toNat, t.Path store n direct role := by
  simp only [below, List.mem_flatMap, RoleGraph.mem_descendants, RoleGraph.Within, steps_graphOf]

theorem mem_rolesIn {t : Tables} {depth user store role : ℤ} : role ∈ t.rolesIn depth user store ↔
    t.HasRole user store role ∨
      ∃ direct n, t.HasRole user store direct ∧ 1 ≤ n ∧ n ≤ depth.toNat ∧
        t.Path store n direct role := by
  rw [rolesIn, List.mem_append, mem_ascendingInts, List.mem_filter, mem_directRoles, mem_below]
  simp only [mem_directRoles, Bool.not_eq_true', List.contains_eq_mem, decide_eq_false_iff_not]
  constructor
  · rintro (h | ⟨⟨direct, hdirect, hne, n, hn, hpath⟩, -⟩)
    · exact .inl h
    · cases n with
      | zero => exact absurd (show direct = role from hpath).symm hne
      | succ n => exact .inr ⟨direct, n + 1, hdirect, by omega, hn, hpath⟩
  · rintro (h | ⟨direct, n, hdirect, -, hn, hpath⟩)
    · exact .inl h
    · by_cases hrole : t.HasRole user store role
      · exact .inl hrole
      · exact .inr ⟨⟨direct, hdirect, fun heq => hrole (heq ▸ hdirect), n, hn, hpath⟩, hrole⟩

/-- The permissions of a user in a store are those that the roles grant. -/
theorem mem_permissionsIn {t : Tables} {depth user store : ℤ} {name : String} :
    name ∈ t.permissionsIn depth user store ↔ t.Grants depth.toNat user store name := by
  rw [permissionsIn, mem_permissionsOfRoles]
  simp only [mem_rolesIn, Grants]
  exact exists_congr fun role => And.comm

/-! ### Stores -/

/-- Is the user assigned to every active store?  Where no store is active, every user is. -/
def coversStores (t : Tables) (user : ℤ) : Bool :=
  if t.hasActiveStore then t.coversActiveStores user else true

theorem coversStores_iff {t : Tables} {user : ℤ} : t.coversStores user = true ↔
    ∀ st ∈ t.stores, st.isActive = true → ∃ a ∈ t.assignments, a.user = user ∧ a.isActive = true ∧
      a.store = st.id := by
  have hcovers : t.coversActiveStores user = true ↔ ∀ st ∈ t.stores, st.isActive = true →
      ∃ a ∈ t.assignments, a.user = user ∧ a.isActive = true ∧ a.store = st.id := by
    simp only [coversActiveStores, List.all_eq_true, List.mem_filter, List.any_eq_true,
      Bool.and_eq_true, beq_iff_eq, and_imp, and_assoc]
  unfold coversStores
  split
  · exact hcovers
  · next h =>
      simp only [hasActiveStore, List.any_eq_true, not_exists, not_and] at h
      exact ⟨fun _ st hst hactive => absurd hactive (h st hst), fun _ => rfl⟩

/-! ### What the answers depend on -/

theorem permissionsIn_congr {t t' : Tables} {depth user store : ℤ}
    (hroles : t'.directRoles user store = t.directRoles user store)
    (hgraph : t'.graphOf store = t.graphOf store) (hpermissions : t'.permissions = t.permissions)
    (hattached : t'.rolePermissions = t.rolePermissions) :
    t'.permissionsIn depth user store = t.permissionsIn depth user store := by
  simp only [permissionsIn, permissionsOfRoles, permissionNames, attachedTo, rolesIn, below, hroles,
    hgraph, hpermissions, hattached]

end Tables
end Database
end AccessControl
