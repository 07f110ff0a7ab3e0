import AccessControl.Proofs.Database.Answers
import AccessControl.Proofs.Database.Rows
import AccessControl.Proofs.Session.Edges
import AccessControl.Session.Assignments
import Mathlib

/-! # What the operations of assignments do

A call that is about one user in one store either leaves a session as it is, notes apart, or makes
one change to the assignments of that user there (`AssignmentChange`) and then forgets what was
remembered of the user.  Several grants are a sequence of such steps (`stepsIn_assignmentCall`). -/

namespace AccessControl
namespace Session

open Database

/-! ### Changes -/

/-- What a call may do to the tables: one assignment of the user in the store is
added, removed or switched. -/
inductive AssignmentChange (user store : ℤ) (t : Tables) : Tables → Prop
  | added (row : AssignmentRow) (t' : Tables) (huser : row.user = user) (hstore : row.store = store)
      (hinsert : Table.assignments.insert t row = .ok t') : AssignmentChange user store t t'
  | removed (row : AssignmentRow) (hmem : row ∈ t.assignments) (huser : row.user = user)
      (hstore : row.store = store) :
      AssignmentChange user store t (Table.assignments.drop t row.id)
  | switched (row : AssignmentRow) (hmem : row ∈ t.assignments) (huser : row.user = user)
      (hstore : row.store = store) :
      AssignmentChange user store t
        (Table.assignments.replace t { row with isActive := !row.isActive })

/-- A change of an assignment changes no other table, and neither the roles of another user, nor
those of the user in another store, nor the stores that another user covers. -/
structure AssignmentFrame (user store : ℤ) (t t' : Tables) : Prop where
  rest : t' = { t with assignments := t'.assignments }
  keyed : Table.assignments.Keyed t'.assignments
  directRoles : ∀ u st, (u ≠ user ∨ st ≠ store) → t'.directRoles u st = t.directRoles u st
  coversStores : ∀ u, u ≠ user → t'.coversStores u = t.coversStores u

theorem AssignmentChange.frame {user store : ℤ} {t t' : Tables}
    (h : AssignmentChange user store t t') (ht : Table.assignments.Keyed t.assignments) :
    AssignmentFrame user store t t' := by
  -- A condition that no assignment of the user in the store meets selects the same assignments as
  -- before.
  have hframe : ∀ {as : List AssignmentRow}, Table.assignments.Keyed as →
      (∀ p : AssignmentRow → Bool, (∀ a, a.user = user → a.store = store → p a = false) →
        as.filter p = t.assignments.filter p) →
          AssignmentFrame user store t { t with assignments := as } := by
    intro as hkeyed hfilter
    refine ⟨rfl, hkeyed, fun u st hne => ?_, fun u hne => ?_⟩
    · rw [Tables.directRoles, Tables.directRoles, hfilter]
      intro a hu hs
      rcases hne with hne | hne
      · simp [hu, Ne.symm hne]
      · simp [hs, Ne.symm hne]
    · have hmem : ∀ a : AssignmentRow, a.user = u → (a ∈ as ↔ a ∈ t.assignments) := by
        intro a ha
        have heq := hfilter (·.user == u) fun b hb _ => by simpa [hb] using Ne.symm hne
        have hiff : a ∈ as.filter (·.user == u) ↔ a ∈ t.assignments.filter (·.user == u) := by
          rw [heq]
        simpa [ha] using hiff
      rw [Bool.eq_iff_iff, Tables.coversStores_iff, Tables.coversStores_iff]
      refine forall_congr' fun st => forall_congr' fun _ => forall_congr' fun _ =>
        exists_congr fun a => ?_
      constructor
      · rintro ⟨ha, hu, hrest⟩
        exact ⟨(hmem a hu).mp ha, hu, hrest⟩
      · rintro ⟨ha, hu, hrest⟩
        exact ⟨(hmem a hu).mpr ha, hu, hrest⟩
  cases h with
  | added row _ huser hstore hinsert =>
      obtain ⟨hadmits, rfl⟩ := Table.insert_eq_ok _ hinsert
      refine hframe (ht.place fun a ha => (Table.ne_of_admits _ hadmits a ha).1) fun p hp => ?_
      exact Table.filter_place Table.assignments (hp row huser hstore) t.assignments
  | removed row hmem huser hstore =>
      exact hframe (ht.filter _) fun p hp => Table.filter_without ht hmem (hp row huser hstore)
  | switched row hmem huser hstore =>
      let row' : AssignmentRow := { row with isActive := !row.isActive }
      refine hframe (ht.swapIn row') fun p hp => ?_
      exact Table.filter_swapIn ht row' hmem rfl (hp row huser hstore) (hp row' huser hstore)

/-- The session after a change of the tables and after what was remembered of a user in
a store is forgotten. -/
def afterAssignments (cached : Bool) (user store : ℤ) (t : Tables) (s : Session) : Session :=
  (outcome (forgetUser cached (.int user) (.int store)) { s with tables := t }).2

/-- A call either makes notes only, or changes an assignment of the user in the store. -/
def AssignmentStep (cached : Bool) (user store : ℤ) (s s' : Session) : Prop :=
  Noted s s' ∨ ∃ t, AssignmentChange user store s.tables t ∧
    Noted (afterAssignments cached user store t s) s'

/-! ### Checks -/

theorem outcome_findAssignment (u r st : ℤ) (s : Session) :
    outcome (findAssignment (.int u) (.int r) (.int st)) s =
      (if fits u ∧ fits r ∧ fits st then .ok (s.tables.assignment? u r st) else .error .range,
        s) := by
  unfold findAssignment
  rw [outcome_bind, outcome_askedAll_triple]
  split <;> simp

theorem assignment?_eq_some {t : Tables} {u r st : ℤ} {row : AssignmentRow}
    (hrow : t.assignment? u r st = some row) :
    row ∈ t.assignments ∧ row.user = u ∧ row.role = r ∧ row.store = st := by
  have hlinks := List.find?_some hrow
  simp only [AssignmentRow.links, Bool.and_eq_true, beq_iff_eq] at hlinks
  exact ⟨List.mem_of_find?_eq_some hrow, hlinks.1.1, hlinks.1.2, hlinks.2⟩

theorem outcome_assignmentProblems (u r st : ℤ) (s : Session) :
    ∃ result, outcome (assignmentProblems (.int u) (.int r) (.int st)) s = (result, s) := by
  unfold assignmentProblems
  simp only [outcome_bind, outcome_exists?]
  by_cases hu : fits u
  · by_cases hr : fits r
    · by_cases hs : fits st
      · simp only [hu, hr, hs, if_true, andThen_ok]
        cases s.tables.hasUser u <;> cases s.tables.hasRole r <;> cases s.tables.hasStore st <;>
          try exact ⟨_, rfl⟩
        change ∃ result, outcome (findAssignment (.int u) (.int r) (.int st) >>= _) s = (result, s)
        rw [outcome_bind, outcome_findAssignment, if_pos ⟨hu, hr, hs⟩, andThen_ok]
        split <;> exact ⟨_, rfl⟩
      · simp [hu, hr, hs]
    · simp [hu, hr]
  · simp [hu]

/-- A check of several grants changes nothing. -/
theorem outcome_grantProblems (u : ℤ) (grants : List Grant) :
    ∀ (i : ℕ) (seen : List (ℤ × ℤ)) (s : Session),
    ∃ result, outcome (grantProblems (.int u) i seen grants) s = (result, s) := by
  induction grants with
  | nil => exact fun i seen s => ⟨.ok [], rfl⟩
  | cons g gs ih =>
      intro i seen s
      unfold grantProblems
      dsimp only
      split
      · obtain ⟨rest, hrest⟩ := ih (i + 1) seen s
        rw [outcome_bind, hrest]
        cases rest <;> exact ⟨_, rfl⟩
      · obtain ⟨result, hresult⟩ := outcome_assignmentProblems u g.role g.store s
        rw [outcome_bind, hresult]
        cases result with
        | error e => exact ⟨_, rfl⟩
        | ok problems =>
            obtain ⟨rest, hrest⟩ := ih (i + 1) ((g.role, g.store) :: seen) s
            rw [andThen_ok, outcome_bind, hrest]
            cases rest <;> exact ⟨_, rfl⟩

/-! ### Steps -/

theorem step_writeAssignment (cached : Bool) (u r st : ℤ) (data : Value) (flag : Bool)
    (s : Session) :
    AssignmentStep cached u st s
      (outcome (writeAssignment cached (.int u) (.int r) (.int st) data (.bool flag)) s).2 := by
  unfold writeAssignment
  simp only [outcome_bind, outcome_current, andThen_ok, newFlag_bool, outcome_lift,
    outcome_askedAll_triple]
  split
  · simp only [andThen_ok]
    cases hinsert : Table.assignments.insert s.tables
        ⟨Table.assignments.nextId s.tables, u, r, st, asData data, flag⟩ with
    | error e => exact .inl (noted_records s _)
    | ok t =>
        refine .inr ⟨t, .added _ t rfl rfl hinsert, ?_⟩
        simp only [Except.toOption, Option.map_some, outcome_bind, outcome_setTables, andThen_ok]
        exact noted_andThen _ _ fun _ s => noted_records s _
  · exact .inl (.refl s)

theorem step_assign (cached : Bool) (u r st : ℤ) (data : Value) (flag : Bool) (s : Session) :
    AssignmentStep cached u st s
      (outcome (assign cached (.int u) (.int r) (.int st) data (.bool flag)) s).2 := by
  obtain ⟨result, hresult⟩ := outcome_assignmentProblems u r st s
  unfold assign
  rw [outcome_bind, hresult]
  cases result with
  | error e => exact .inl (.refl s)
  | ok problems =>
      rw [andThen_ok]
      split
      · exact step_writeAssignment cached u r st data flag s
      · exact .inl (.refl s)

theorem step_removeAssignment (cached : Bool) (u r st : ℤ) (s : Session) :
    AssignmentStep cached u st s
      (outcome (removeAssignment cached (.int u) (.int r) (.int st)) s).2 := by
  unfold removeAssignment
  rw [outcome_bind, outcome_findAssignment]
  split
  · cases hrow : s.tables.assignment? u r st with
    | none => exact .inl (.refl s)
    | some row =>
        obtain ⟨hmem, huser, -, hstore⟩ := assignment?_eq_some hrow
        refine .inr ⟨_, .removed row hmem huser hstore, ?_⟩
        simp only [andThen_ok, outcome_bind, outcome_current, outcome_setTables]
        exact noted_andThen _ _ fun _ s => noted_records s _
  · exact .inl (.refl s)

theorem step_toggleAssignment (cached : Bool) (u r st : ℤ) (s : Session) :
    AssignmentStep cached u st s
      (outcome (toggleAssignment cached (.int u) (.int r) (.int st)) s).2 := by
  unfold toggleAssignment
  rw [outcome_bind, outcome_findAssignment]
  split
  · cases hrow : s.tables.assignment? u r st with
    | none => exact .inl (.refl s)
    | some row =>
        obtain ⟨hmem, huser, -, hstore⟩ := assignment?_eq_some hrow
        refine .inr ⟨_, .switched row hmem huser hstore, ?_⟩
        simp only [andThen_ok, outcome_bind, outcome_current, outcome_setTables]
        exact noted_andThen _ _ fun _ s => .refl s
  · exact .inl (.refl s)

/-! ### Several grants -/

/-- Steps about one user, in any stores. -/
def AssignmentSteps (cached : Bool) (user : ℤ) : Session → Session → Prop :=
  Relation.ReflTransGen fun s s' => ∃ store, AssignmentStep cached user store s s'

/-- Steps about one user, in some stores only. -/
def StepsIn (cached : Bool) (user : ℤ) (stores : List ℤ) : Session → Session → Prop :=
  Relation.ReflTransGen fun s s' => ∃ store ∈ stores, AssignmentStep cached user store s s'

theorem StepsIn.mono {cached : Bool} {user : ℤ} {stores more : List ℤ} {s s' : Session}
    (h : StepsIn cached user stores s s') (hsub : stores ⊆ more) : StepsIn cached user more s s' :=
  Relation.ReflTransGen.mono (fun _ _ ⟨store, hmem, hstep⟩ => ⟨store, hsub hmem, hstep⟩) s s' h

theorem stepsIn_single {cached : Bool} {user store : ℤ} {s s' : Session}
    (h : AssignmentStep cached user store s s') :
    StepsIn cached user [store] s s' := .single ⟨store, List.mem_singleton_self store, h⟩

theorem stepsIn_assignEach (cached : Bool) (u : ℤ) (grants : List Grant) (s : Session) :
    StepsIn cached u (grants.map (·.store)) s
      (outcome (assignEach cached (.int u) grants) s).2 := by
  induction grants generalizing s with
  | nil => exact .refl
  | cons g gs ih =>
      have hfirst := step_assign cached u g.role g.store g.data g.isActive s
      have hmem : g.store ∈ (g :: gs).map (·.store) := List.mem_cons_self
      unfold assignEach assignGrant
      rw [outcome_bind]
      generalize outcome
        (assign cached (.int u) (.int g.role) (.int g.store) g.data (.bool g.isActive)) s = first
        at hfirst ⊢
      rcases first with ⟨_ | row, s'⟩
      · exact .single ⟨g.store, hmem, hfirst⟩
      · refine .head ⟨g.store, hmem, hfirst⟩ ?_
        have hrest := (ih s').mono (List.subset_cons_self g.store _)
        rw [andThen_ok, outcome_bind]
        generalize outcome (assignEach cached (.int u) gs) s' = others at hrest ⊢
        rcases others with ⟨_ | rows, s''⟩ <;> exact hrest

theorem stepsIn_assignAll (cached : Bool) (u : ℤ) (grants : List Grant) (s : Session) :
    StepsIn cached u (grants.map (·.store)) s (outcome (assignAll cached (.int u) grants) s).2 := by
  obtain ⟨result, hresult⟩ := outcome_grantProblems u grants 0 [] s
  unfold assignAll
  rw [outcome_bind, hresult]
  cases result with
  | error e => exact .refl
  | ok problems =>
      rw [andThen_ok]
      split
      · exact stepsIn_assignEach cached u grants s
      · exact .refl

/-! ### Calls -/

/-- A call about the assignments of a user: roles and stores are given by numbers. -/
inductive AssignmentCall where
  | assign (user role store : ℤ) (data : Value) (isActive : Bool)
  | assignAll (user : ℤ) (grants : List Grant)
  | remove (user role store : ℤ)
  | toggle (user role store : ℤ)

/-- The user of a call. -/
def AssignmentCall.user : AssignmentCall → ℤ
  | assign user _ _ _ _ => user
  | assignAll user _ => user
  | remove user _ _ => user
  | toggle user _ _ => user

/-- The session after a call, accepted or not. -/
def afterAssignmentCall (cached : Bool) (call : AssignmentCall) (s : Session) : Session :=
  match call with
  | .assign user role store data isActive =>
    (outcome (assign cached (.int user) (.int role) (.int store) data (.bool isActive)) s).2
  | .assignAll user grants => (outcome (assignAll cached (.int user) grants) s).2
  | .remove user role store =>
      (outcome (removeAssignment cached (.int user) (.int role) (.int store)) s).2
  | .toggle user role store =>
      (outcome (toggleAssignment cached (.int user) (.int role) (.int store)) s).2

/-- The stores of a call. -/
def AssignmentCall.stores : AssignmentCall → List ℤ
  | assign _ _ store _ _ => [store]
  | assignAll _ grants => grants.map (·.store)
  | remove _ _ store => [store]
  | toggle _ _ store => [store]

/-- A call is a sequence of steps about its user in its stores. -/
theorem stepsIn_assignmentCall (cached : Bool) (call : AssignmentCall) (s : Session) :
    StepsIn cached call.user call.stores s (afterAssignmentCall cached call s) := by
  cases call with
  | assign user role store data isActive =>
      exact stepsIn_single (step_assign cached user role store data isActive s)
  | assignAll user grants => exact stepsIn_assignAll cached user grants s
  | remove user role store => exact stepsIn_single (step_removeAssignment cached user role store s)
  | toggle user role store => exact stepsIn_single (step_toggleAssignment cached user role store s)

theorem steps_assignmentCall (cached : Bool) (call : AssignmentCall) (s : Session) :
    AssignmentSteps cached call.user s (afterAssignmentCall cached call s) :=
  Relation.ReflTransGen.mono (fun _ _ ⟨store, _, hstep⟩ => ⟨store, hstep⟩) _ _
    (stepsIn_assignmentCall cached call s)

end Session
end AccessControl
