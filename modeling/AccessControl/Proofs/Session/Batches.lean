import AccessControl.Proofs.Session.Freshness
import Mathlib

/-! # Several grants, all or none

Before any of several grants is made, each of them is checked, and what is wrong is told in the
order of the grants, with the place of each (`Tables.faultLines`, `outcome_grantProblems_eq`).  The
check of a single assignment is made once more when its turn comes, on tables that hold the grants
made so far.  What is left of a list without faults has none then (`Tables.Faultless.granted`), so
all of its grants are made, in their order (`Granting.assignEach`, `assignAll_allOrNothing`).  -/

namespace AccessControl

open Database

namespace Grant

/-- An earlier grant gives the same role in the same store. -/
def Repeats (g : Grant) (earlier : List Grant) : Prop :=
  ∃ e ∈ earlier, e.role = g.role ∧ e.store = g.store

instance (g : Grant) (earlier : List Grant) : Decidable (g.Repeats earlier) :=
  inferInstanceAs (Decidable (∃ e ∈ earlier, _))

/-- A grant whose numbers fit into columns, with data of its own or none. -/
structure Proper (g : Grant) : Prop where
  role : fits g.role
  store : fits g.store
  data : g.data = .null ∨ ∃ fields, g.data = .object fields

theorem Proper.asData_eq {g : Grant} (h : g.Proper) : asData g.data = g.data := by
  rcases h.data with hnull | ⟨fields, hfields⟩
  · rw [hnull]
    rfl
  · rw [hfields]
    rfl

/-- The row gives a user what the grant asks for. -/
structure MadeFor (g : Grant) (user : ℤ) (row : AssignmentRow) : Prop where
  user : row.user = user
  role : row.role = g.role
  store : row.store = g.store
  data : row.data = g.data
  isActive : row.isActive = g.isActive

end Grant

/-! ### Faults -/

namespace Database.Tables

variable {t : Tables} {user role store : ℤ} {g : Grant} {earlier grants : List Grant}

/-- The rows that an assignment needs and that are missing. -/
def missing (t : Tables) (user role store : ℤ) : List String :=
  (if t.hasUser user then [] else ["User does not exist"]) ++
    (if t.hasRole role then [] else ["Role does not exist"]) ++
  (if t.hasStore store then [] else ["Store does not exist"])

/-- What is wrong with an assignment that is to be made. -/
def assignmentFaults (t : Tables) (user role store : ℤ) : List String :=
  if !(t.missing user role store).isEmpty then t.missing user role store
  else if (t.assignment? user role store).isSome then ["User already has this role in this store"]
  else []

/-- What is wrong with a grant that comes after others. -/
def faults (t : Tables) (user : ℤ) (earlier : List Grant) (g : Grant) : List String :=
  if g.Repeats earlier then
    ["duplicate role/store pair"]
  else t.assignmentFaults user g.role g.store

/-- What is wrong with the grant at a place of a list, with its place. -/
def faultsAt (t : Tables) (user : ℤ) (grants : List Grant) (placed : Grant × ℕ) : List String :=
  (t.faults user (grants.take placed.2) placed.1).map
    ("assignments[" ++ Text.natText placed.2 ++ "]: " ++ ·)

/-- What is wrong with the grants of a list, in their order. -/
def faultLines (t : Tables) (user : ℤ) (grants : List Grant) : List String :=
  grants.zipIdx.flatMap (t.faultsAt user grants)

/-- No grant of the list is wrong after those before it. -/
def Faultless (t : Tables) (user : ℤ) (grants : List Grant) : Prop :=
  ∀ earlier g later, grants = earlier ++ g :: later → t.faults user earlier g = []

theorem assignment?_eq_none_iff :
    t.assignment? user role store = none ↔
      ∀ a ∈ t.assignments, ¬(a.user = user ∧ a.role = role ∧ a.store = store) := by
  simp [assignment?, AssignmentRow.links, and_assoc]

theorem assignmentFaults_eq_nil_iff : t.assignmentFaults user role store = [] ↔
    t.hasUser user = true ∧ t.hasRole role = true ∧ t.hasStore store = true ∧
      t.assignment? user role store = none := by
  unfold assignmentFaults missing
  cases t.hasUser user <;> cases t.hasRole role <;> cases t.hasStore store <;> simp

theorem faults_eq_nil_iff :
    t.faults user earlier g = [] ↔
      ¬g.Repeats earlier ∧ t.assignmentFaults user g.role g.store = [] := by
  unfold faults
  split <;> simp [*]

theorem faultLines_eq_nil_iff : t.faultLines user grants = [] ↔ t.Faultless user grants := by
  simp only [faultLines, faultsAt, List.flatMap_eq_nil_iff, List.map_eq_nil_iff, Prod.forall,
    List.mem_zipIdx_iff_getElem?]
  constructor
  · rintro h earlier g later rfl
    simpa using h g earlier.length (by simp)
  · intro h g i hg
    obtain ⟨hi, rfl⟩ := List.getElem?_eq_some_iff.mp hg
    refine h _ _ (grants.drop (i + 1)) ?_
    rw [List.getElem_cons_drop, List.take_append_drop]

theorem faultLines_ne_nil_iff :
    t.faultLines user grants ≠ [] ↔ ∃ earlier g later, grants = earlier ++ g :: later ∧
    (g.Repeats earlier ∨ t.hasUser user = false ∨ t.hasRole g.role = false ∨
      t.hasStore g.store = false ∨
      ∃ a ∈ t.assignments, a.user = user ∧ a.role = g.role ∧ a.store = g.store) := by
  simp only [ne_eq, faultLines_eq_nil_iff, Faultless, faults_eq_nil_iff,
    assignmentFaults_eq_nil_iff, assignment?_eq_none_iff, not_forall]
  refine exists_congr fun earlier => exists_congr fun g => exists_congr fun later => ?_
  rw [exists_prop, and_congr_right_iff]
  intro
  rw [← not_iff_not]
  push Not
  simp

/-- A row that gives what the first grant asks for brings no fault into the others. -/
theorem Faultless.granted {row : AssignmentRow} (h : t.Faultless user (g :: grants))
    (hrow : g.MadeFor user row) :
    Faultless { t with assignments := t.assignments ++ [row] } user grants := by
  rintro earlier g' later rfl
  obtain ⟨hnew, hfaults⟩ := faults_eq_nil_iff.mp (h (g :: earlier) g' later rfl)
  obtain ⟨huser, hrole, hstore, hnone⟩ := assignmentFaults_eq_nil_iff.mp hfaults
  refine faults_eq_nil_iff.mpr ⟨fun ⟨e, he, heq⟩ => hnew ⟨e, List.mem_cons_of_mem g he, heq⟩, ?_⟩
  refine assignmentFaults_eq_nil_iff.mpr ⟨huser, hrole, hstore,
    assignment?_eq_none_iff.mpr fun a ha => ?_⟩
  rcases List.mem_append.mp ha with ha | ha
  · exact assignment?_eq_none_iff.mp hnone a ha
  · obtain rfl := List.mem_singleton.mp ha
    rintro ⟨-, hrole', hstore'⟩
    exact hnew ⟨g, List.mem_cons_self, hrow.role.symm.trans hrole', hrow.store.symm.trans hstore'⟩

theorem insert_assignment {row : AssignmentRow} (ht : Table.assignments.Ascending t.assignments)
    (hid : row.id = Table.assignments.nextId t)
    (h : t.assignmentFaults row.user row.role row.store = []) :
    Table.assignments.insert t row = .ok { t with assignments := t.assignments ++ [row] } := by
  obtain ⟨huser, hrole, hstore, hnone⟩ := assignmentFaults_eq_nil_iff.mp h
  refine Table.Ascending.insert_next ht hid (fun r hr => ?_) ?_
  · have hother := assignment?_eq_none_iff.mp hnone r hr
    simpa [Table.assignments, AssignmentRow.links, and_assoc] using hother
  · simp [Table.assignments, huser, hrole, hstore]

end Database.Tables

namespace Session

open Cache

variable {shared cached : Bool} {s : Session} {c : Cache} {v : View} {user : ℤ} {g : Grant}
  {grants : List Grant}

/-! ### Checks -/

theorem outcome_assignmentProblems_eq {role store : ℤ} (huser : fits user) (hrole : fits role)
    (hstore : fits store) (s : Session) :
    outcome (assignmentProblems (.int user) (.int role) (.int store)) s =
      (.ok (s.tables.assignmentFaults user role store), s) := by
  unfold assignmentProblems Tables.assignmentFaults
  simp only [outcome_bind, outcome_exists?, huser, hrole, hstore, if_true, andThen_ok]
  rw [← Tables.missing]
  split
  · rfl
  · rw [outcome_bind, outcome_findAssignment, if_pos ⟨huser, hrole, hstore⟩, andThen_ok]
    split <;> rfl

/-- The check of several grants tells the faults of each, and changes nothing. -/
theorem outcome_grantProblems_eq (huser : fits user) (s : Session) {rest : List Grant} :
    ∀ (earlier : List Grant) {seen : List (ℤ × ℤ)}, (∀ g ∈ rest, g.Proper) →
      (∀ pair, pair ∈ seen ↔ ∃ e ∈ earlier, (e.role, e.store) = pair) →
      outcome (grantProblems (.int user) earlier.length seen rest) s =
        (.ok ((rest.zipIdx earlier.length).flatMap (s.tables.faultsAt user (earlier ++ rest))),
          s) := by
  induction rest with
  | nil => exact fun _ _ _ _ => rfl
  | cons g rest ih =>
      intro earlier seen hproper hseen
      obtain ⟨hg, hrest⟩ := List.forall_mem_cons.mp hproper
      have hrepeats : seen.contains (g.role, g.store) = true ↔ g.Repeats earlier := by
        rw [List.contains_iff_mem, hseen]
        simp only [Prod.mk.injEq, Grant.Repeats]
      have hnext : earlier ++ g :: rest = (earlier ++ [g]) ++ rest := by simp
      have hplace : earlier.length + 1 = (earlier ++ [g]).length := by simp
      -- The pairs of the grants so far are those seen before and that of this grant, which may be
      -- among them.
      have hlater : ∀ seen', (∀ pair, pair ∈ seen' ↔ pair ∈ seen ∨ pair = (g.role, g.store)) →
          outcome (grantProblems (.int user) (earlier.length + 1) seen' rest) s =
            (.ok ((rest.zipIdx (earlier.length + 1)).flatMap
              (s.tables.faultsAt user (earlier ++ g :: rest))), s) := by
        intro seen' hseen'
        rw [hnext, hplace]
        refine ih (earlier ++ [g]) hrest fun pair => ?_
        simp [hseen', hseen, or_and_right, exists_or, eq_comm]
      have hfaults : s.tables.faultsAt user (earlier ++ g :: rest) (g, earlier.length) =
          (s.tables.faults user earlier g).map ("assignments[" ++ Text.natText earlier.length ++
            "]: " ++ ·) := by
        rw [Tables.faultsAt, List.take_left]
      unfold grantProblems
      rw [List.zipIdx_cons, List.flatMap_cons, hfaults, Tables.faults]
      dsimp only
      by_cases hrep : g.Repeats earlier
      · have hmem : (g.role, g.store) ∈ seen := List.contains_iff_mem.mp (hrepeats.mpr hrep)
        have hsame : ∀ pair, pair ∈ seen ↔ pair ∈ seen ∨ pair = (g.role, g.store) := by
          refine fun pair => ⟨.inl, fun h => ?_⟩
          rcases h with h | rfl
          · exact h
          · exact hmem
        rw [if_pos (hrepeats.mpr hrep), if_pos hrep, outcome_bind, hlater seen hsame]
        rfl
      · rw [if_neg (mt hrepeats.mp hrep), if_neg hrep, outcome_bind,
          outcome_assignmentProblems_eq huser hg.role hg.store, andThen_ok, outcome_bind,
          hlater _ fun pair => by rw [List.mem_cons, or_comm]]
        rfl

/-! ### Epochs -/

/-- A cache that answers, and whose epochs, if they are there, are numbers. -/
structure Dated (shared : Bool) (c : Cache) (v : View) : Prop where
  represents : Represents shared c v
  seeds : ∀ n, IsSeed c n → Countable shared n
  epochs : ∀ store p, v ((Key.epoch store).text c.space) = some p → ∃ n, p = (.int n, none)

theorem Dated.forget (h : Dated shared c v) (user store : ℤ) : ∃ c' v',
    outcome (invalidateUserStore (.int user) (.int store)) c = (.ok (), c') ∧
      Dated shared c' v' := by
  obtain ⟨n, -, hkey⟩ :=
    yields_currentPermissionsKey h.represents user store (h.epochs store) h.seeds
  obtain ⟨c', hrun, hsteady, hrep⟩ := yields_invalidateUserStore hkey
  have hderived : ∀ k ∈ [Key.permissions user store n, Key.allStores user], k.isDerived = true := by
    simp [Key.isDerived]
  refine ⟨c', _, hrun, hrep, fun k hk => h.seeds k (hsteady.isSeed hk), fun other p hp => ?_⟩
  rw [hsteady.space, View.without_text hderived, if_neg (by simp), View.set_text rfl] at hp
  split at hp
  · exact ⟨n, (Option.some.inj hp).symm⟩
  · exact h.epochs other p hp

/-! ### Grants -/

/-- A session in which grants can be made: the assignments stand in the order of their numbers, and
the cache, where there is one for assignments, answers. -/
structure Granting (shared cached : Bool) (s : Session) : Prop where
  ascending : Table.assignments.Ascending s.tables.assignments
  dated : cached = true → ∃ v, Dated shared s.cache v

theorem Granting.forget (h : Granting shared cached s) (user store : ℤ) : ∃ s',
    outcome (forgetUser cached (.int user) (.int store)) s = (.ok (), s') ∧ s'.tables = s.tables ∧
      Granting shared cached s' := by
  unfold forgetUser
  cases cached with
  | false => exact ⟨s, rfl, rfl, h⟩
  | true =>
      obtain ⟨v, hdated⟩ := h.dated rfl
      obtain ⟨c', v', hrun, hdated'⟩ := hdated.forget user store
      simp only [if_true, outcome_onCache, hrun]
      exact ⟨_, rfl, rfl, h.ascending,
        fun _ => ⟨v', hdated'.represents, hdated'.seeds, hdated'.epochs⟩⟩

theorem toFields_insertAll (row : AssignmentRow) : row.toFields.insertAll
    (assignmentDetails (.int row.user) (.int row.role) (.int row.store) ++
      givenFields row.data (.bool row.isActive)) =
      row.toFields := by
  simp [AssignmentRow.toFields, assignmentDetails, givenFields, Fields.insertAll, Fields.insert,
    dataName, Value.isNull]

/-- A grant without faults is made: one row is added. -/
theorem Granting.assignGrant (h : Granting shared cached s) (huser : fits user) (hg : g.Proper)
    (hfaults : s.tables.assignmentFaults user g.role g.store = []) : ∃ row s',
    outcome (assignGrant cached (.int user) g) s = (.ok row.toFields, s') ∧ g.MadeFor user row ∧
      s'.tables = { s.tables with assignments := s.tables.assignments ++ [row] } ∧
        Granting shared cached s' := by
  have hinsert : Table.assignments.insert s.tables
      ⟨Table.assignments.nextId s.tables, user, g.role, g.store, asData g.data, g.isActive⟩ =
        .ok _ :=
    Tables.insert_assignment h.ascending rfl hfaults
  generalize hrow : AssignmentRow.mk (Table.assignments.nextId s.tables) user g.role g.store
    (asData g.data) g.isActive =
    row at hinsert
  have hmade : g.MadeFor user row := by
    subst hrow
    exact ⟨rfl, rfl, rfl, hg.asData_eq, rfl⟩
  have hlater : Granting shared cached
      { s with tables := { s.tables with assignments := s.tables.assignments ++ [row] } } := by
    refine ⟨h.ascending.concat ?_, h.dated⟩
    subst hrow
    exact h.ascending.lt_nextId
  obtain ⟨s', hforget, htables, hgranting⟩ := hlater.forget user g.store
  have hshown := toFields_insertAll row
  rw [hmade.user, hmade.role, hmade.store, hmade.data, hmade.isActive] at hshown
  have hrun : ∃ records, outcome (Session.assignGrant cached (.int user) g) s =
      (.ok row.toFields, { s' with records := records }) := by
    unfold Session.assignGrant assign
    rw [outcome_bind, outcome_assignmentProblems_eq huser hg.role hg.store, hfaults, andThen_ok]
    dsimp only [List.isEmpty_nil]
    rw [if_pos rfl]
    unfold writeAssignment
    simp only [outcome_bind, outcome_current, andThen_ok, newFlag_bool, outcome_lift,
      outcome_askedAll_triple, if_pos (And.intro huser (And.intro hg.role hg.store)), hrow, hinsert,
      Except.toOption, Option.map_some, outcome_setTables, hforget, outcome_note, outcome_pure,
      hshown]
    exact ⟨_, rfl⟩
  obtain ⟨records, hrun⟩ := hrun
  exact ⟨row, { s' with records := records }, hrun, hmade, htables, hgranting.ascending,
    hgranting.dated⟩

/-- Grants without faults are all made, one row after the other. -/
theorem Granting.assignEach (h : Granting shared cached s) (huser : fits user)
    (hproper : ∀ g ∈ grants, g.Proper) (hfaults : s.tables.Faultless user grants) : ∃ rows s',
    outcome (assignEach cached (.int user) grants) s = (.ok (rows.map (·.toFields)), s') ∧
      grants.Forall₂ (·.MadeFor user ·) rows ∧
      s'.tables = { s.tables with assignments := s.tables.assignments ++ rows } ∧
        Granting shared cached s' := by
  induction grants generalizing s with
  | nil => exact ⟨[], s, rfl, .nil, by simp, h⟩
  | cons g grants ih =>
      obtain ⟨hg, hrest⟩ := List.forall_mem_cons.mp hproper
      have hfirst := (Tables.faults_eq_nil_iff.mp (hfaults [] g grants rfl)).2
      obtain ⟨row, s₁, hrun, hmade, htables, h₁⟩ := h.assignGrant huser hg hfirst
      have hlater : s₁.tables.Faultless user grants := htables ▸ hfaults.granted hmade
      obtain ⟨rows, s₂, hruns, hall, htables', h₂⟩ := ih h₁ hrest hlater
      refine ⟨row :: rows, s₂, ?_, .cons hmade hall, ?_, h₂⟩
      · rw [Session.assignEach, outcome_bind, hrun, andThen_ok, outcome_bind, hruns]
        rfl
      · rw [htables', htables]
        simp

/-- Several grants are made all or none.  Either there is a fault, and then the faults of each grant
are told in the order of the grants, and the session is as it was, with all rows and with what its
cache holds; or one row is added for every grant, in their order, and no other row is changed.
There is a fault just when a grant gives what an earlier one gives, names a user, a role or a store
that is missing, or asks for an assignment that is there already.  Of a grant that gives nothing
again, the faults are those that the check of its assignment tells. -/
theorem assignAll_allOrNothing (h : Granting shared cached s) (huser : fits user)
    (hproper : ∀ g ∈ grants, g.Proper) :
    (outcome (assignAll cached (.int user) grants) s =
        (.error (.assignment (s.tables.faultLines user grants)), s) ∨
      ∃ rows s',
        outcome (assignAll cached (.int user) grants) s = (.ok (rows.map (·.toFields)), s') ∧
        grants.Forall₂ (·.MadeFor user ·) rows ∧
        s'.tables = { s.tables with assignments := s.tables.assignments ++ rows }) ∧
    ((∃ errors s',
        outcome (assignAll cached (.int user) grants) s = (.error (.assignment errors), s')) ↔
      ∃ earlier g later, grants = earlier ++ g :: later ∧
        (g.Repeats earlier ∨ s.tables.hasUser user = false ∨ s.tables.hasRole g.role = false ∨
          s.tables.hasStore g.store = false ∨
          ∃ a ∈ s.tables.assignments, a.user = user ∧ a.role = g.role ∧ a.store = g.store)) ∧
    ∀ g ∈ grants, outcome (assignmentProblems (.int user) (.int g.role) (.int g.store)) s =
      (.ok (s.tables.assignmentFaults user g.role g.store), s) := by
  have hproblems : outcome (grantProblems (.int user) 0 [] grants) s =
      (.ok (s.tables.faultLines user grants), s) :=
    outcome_grantProblems_eq huser s [] hproper (by simp)
  have hrun : outcome (assignAll cached (.int user) grants) s =
      if (s.tables.faultLines user grants).isEmpty then
        outcome (assignEach cached (.int user) grants) s
      else (.error (.assignment (s.tables.faultLines user grants)), s) := by
    unfold assignAll
    rw [outcome_bind, hproblems, andThen_ok]
    split <;> rfl
  have hchecked := fun g hg =>
    outcome_assignmentProblems_eq huser (hproper g hg).role (hproper g hg).store s
  rw [← Tables.faultLines_ne_nil_iff, hrun]
  by_cases hlines : s.tables.faultLines user grants = []
  · obtain ⟨rows, s', heach, hmade, htables, -⟩ :=
      h.assignEach huser hproper (Tables.faultLines_eq_nil_iff.mp hlines)
    rw [hlines, List.isEmpty_nil, if_pos rfl, heach]
    exact ⟨.inr ⟨rows, s', rfl, hmade, htables⟩, by simp, hchecked⟩
  · rw [if_neg (by simpa using hlines)]
    exact ⟨.inl rfl, ⟨fun _ => hlines, fun _ => ⟨_, s, rfl⟩⟩, hchecked⟩

/-- A session with a user, two roles and a store, over an empty cache. -/
def hiring : Session :=
  { start .standard (fresh (.memory [])) with
    tables := { Tables.empty with
      users := [⟨1, "Ann", "ann@example.com", true⟩]
      roles := [⟨1, "clerk", none⟩, ⟨2, "auditor", none⟩]
      stores := [⟨1, "S1", "Main", .null, true⟩] } }

/-- Two grants that can be made together. -/
def bothRoles : List Grant := [⟨1, 1, .null, true⟩, ⟨2, 1, .object [("since", .int 2024)], false⟩]

/-- Two of these grants cannot be made. -/
def brokenGrants : List Grant := [⟨1, 1, .null, true⟩, ⟨1, 1, .null, false⟩, ⟨2, 9999, .null, true⟩]

theorem assignAll_allOrNothing_hiring :
    Granting false true hiring ∧ fits 1 ∧ (∀ g ∈ bothRoles ++ brokenGrants, g.Proper) ∧
    (∃ rows s',
      outcome (assignAll true (.int 1) bothRoles) hiring = (.ok (rows.map (·.toFields)), s') ∧
      bothRoles.Forall₂ (·.MadeFor 1 ·) rows ∧
      s'.tables = { hiring.tables with assignments := hiring.tables.assignments ++ rows }) ∧
    outcome (assignAll true (.int 1) brokenGrants) hiring =
      (.error (.assignment ["assignments[1]: duplicate role/store pair",
        "assignments[2]: Store does not exist"]), hiring) := by
  have hgranting : Granting false true hiring :=
    ⟨.nil, fun _ => ⟨_, represents_emptyMemory rfl, fun n _ => countable_memory n,
      fun _ _ hp => by cases hp⟩⟩
  have hproper : ∀ g ∈ bothRoles ++ brokenGrants, g.Proper := by
    simp only [bothRoles, brokenGrants, List.cons_append, List.nil_append, List.forall_mem_cons]
    exact ⟨⟨rfl, rfl, .inl rfl⟩, ⟨rfl, rfl, .inr ⟨_, rfl⟩⟩, ⟨rfl, rfl, .inl rfl⟩,
      ⟨rfl, rfl, .inl rfl⟩, ⟨rfl, rfl, .inl rfl⟩, fun _ hnone => by cases hnone⟩
  have huser : fits 1 = true := rfl
  have hboth :=
    assignAll_allOrNothing hgranting huser fun g hg => hproper g (List.mem_append_left _ hg)
  have hbroken :=
    assignAll_allOrNothing hgranting huser fun g hg => hproper g (List.mem_append_right _ hg)
  refine ⟨hgranting, huser, hproper, ?_, ?_⟩
  · have hdone : (outcome (assignAll true (.int 1) bothRoles) hiring).1.toOption.isSome = true := by
      decide +kernel
    rcases hboth.1 with hfailed | hmade
    · rw [hfailed] at hdone
      cases hdone
    · exact hmade
  · have hrefused : (outcome (assignAll true (.int 1) brokenGrants) hiring).1.toOption.isSome =
        false := by
      decide +kernel
    have hlines : hiring.tables.faultLines 1 brokenGrants =
        ["assignments[1]: duplicate role/store pair", "assignments[2]: Store does not exist"] := by
      decide +kernel
    rcases hbroken.1 with hfailed | ⟨rows, s', hrun, -⟩
    · rw [← hlines]
      exact hfailed
    · rw [hrun] at hrefused
      cases hrefused

end Session
end AccessControl
