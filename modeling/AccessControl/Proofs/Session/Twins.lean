import AccessControl.Proofs.Session.Queries
import Mathlib

/-! # Answers about one store

Two sessions are `Twins` in a store when their tables agree on the rows of the store and on what all
stores share, and when they would take the same graph for its hierarchy.  An operation is `Local` to
a store when it answers alike in twins and leaves them twins.  Every question about the roles, the
permissions and the hierarchy of a store is local to it, so twins give the same answers
(`Twins.sameAnswers`). -/

namespace AccessControl

/-! ### Tables -/

namespace Database

variable {st : ℤ} {t t' : Tables}

/-- Two databases have the same rows in a store, and the same users, roles,
permissions and stores. -/
structure Tables.AgreesOn (st : ℤ) (t t' : Tables) : Prop where
  users : t'.users = t.users
  roles : t'.roles = t.roles
  permissions : t'.permissions = t.permissions
  stores : t'.stores = t.stores
  rolePermissions : t'.rolePermissions = t.rolePermissions
  assignments : t'.assignments.filter (·.store == st) = t.assignments.filter (·.store == st)
  edges : t'.edges.filter (·.store == st) = t.edges.filter (·.store == st)

namespace Tables.AgreesOn

theorem refl (st : ℤ) (t : Tables) : AgreesOn st t t := ⟨rfl, rfl, rfl, rfl, rfl, rfl, rfl⟩

theorem trans {t₁ t₂ t₃ : Tables} (h : AgreesOn st t₁ t₂) (h' : AgreesOn st t₂ t₃) :
    AgreesOn st t₁ t₃ where
  users := h'.users.trans h.users
  roles := h'.roles.trans h.roles
  permissions := h'.permissions.trans h.permissions
  stores := h'.stores.trans h.stores
  rolePermissions := h'.rolePermissions.trans h.rolePermissions
  assignments := h'.assignments.trans h.assignments
  edges := h'.edges.trans h.edges

theorem activeEdges (h : AgreesOn st t t') : t'.activeEdges st = t.activeEdges st := by
  have hfilter :
      ∀ u : Tables, u.activeEdges st = (u.edges.filter (·.store == st)).filter (·.isActive) := by
    intro u
    rw [List.filter_filter, Tables.activeEdges]
    congr 1
    funext e
    rw [Bool.and_comm]
  rw [hfilter, hfilter, h.edges]

theorem graphOf (h : AgreesOn st t t') : t'.graphOf st = t.graphOf st := by
  rw [Tables.graphOf, Tables.graphOf, h.activeEdges]

theorem edge? (h : AgreesOn st t t') (higher lower : ℤ) :
    t'.edge? higher lower st = t.edge? higher lower st := by
  have hfind : ∀ u : Tables, u.edge? higher lower st =
      (u.edges.filter (·.store == st)).find? fun e => e.higher == higher && e.lower == lower := by
    intro u
    rw [List.find?_filter, Tables.edge?]
    congr 1
    funext e
    simp only [EdgeRow.links, Bool.decide_and, Bool.decide_eq_true]
    rw [Bool.and_comm]
  rw [hfind, hfind, h.edges]

theorem directRoles (h : AgreesOn st t t') (user : ℤ) :
    t'.directRoles user st = t.directRoles user st := by
  have hfilter :
      ∀ u : Tables, (u.assignments.filter fun a => a.user == user && a.store == st && a.isActive) =
      (u.assignments.filter (·.store == st)).filter fun a => a.user == user && a.isActive := by
    intro u
    rw [List.filter_filter]
    congr 1
    funext a
    rw [Bool.and_right_comm]
  rw [Tables.directRoles, Tables.directRoles, hfilter, hfilter, h.assignments]

theorem rolesWithIds (h : AgreesOn st t t') (ids : List ℤ) :
    t'.rolesWithIds ids = t.rolesWithIds ids := by
  rw [Tables.rolesWithIds, Tables.rolesWithIds, h.roles]

theorem permissionsOfRoles (h : AgreesOn st t t') (roles : List ℤ) :
    t'.permissionsOfRoles roles = t.permissionsOfRoles roles := by
  rw [Tables.permissionsOfRoles, Tables.permissionsOfRoles, Tables.attachedTo, Tables.attachedTo,
    Tables.permissionNames, Tables.permissionNames, h.rolePermissions, h.permissions]

end Tables.AgreesOn
end Database

namespace Session

open Database

variable {st : ℤ} {t t' : Tables} {s s' : Session} {α β : Type}

/-- A change of the hierarchy of another store leaves the rows of a store as they are. -/
theorem EdgeChange.agreesOn {other : ℤ} (h : EdgeChange other t t') (ht : Table.edges.Keyed t.edges)
    (hne : other ≠ st) : t.AgreesOn st t' := by
  have hother : ∀ e : EdgeRow, e.store = other → (e.store == st) = false :=
    fun e he => by simpa [he] using hne
  cases h with
  | added row _ hstore _ _ _ hinsert =>
      obtain ⟨-, rfl⟩ := Table.insert_eq_ok _ hinsert
      exact ⟨rfl, rfl, rfl, rfl, rfl, rfl,
        Table.filter_place Table.edges (hother row hstore) t.edges⟩
  | removed row hmem hstore =>
      exact ⟨rfl, rfl, rfl, rfl, rfl, rfl, Table.filter_without ht hmem (hother row hstore)⟩
  | switched row flag hmem hstore _ =>
      let row' : EdgeRow := { row with isActive := flag }
      exact ⟨rfl, rfl, rfl, rfl, rfl, rfl,
        Table.filter_swapIn ht row' hmem rfl (hother row hstore) (hother row' hstore)⟩

/-- A change of the assignments in another store leaves the rows of a store as they are. -/
theorem AssignmentChange.agreesOn {user other : ℤ} (h : AssignmentChange user other t t')
    (ht : Table.assignments.Keyed t.assignments) (hne : other ≠ st) : t.AgreesOn st t' := by
  have hother : ∀ a : AssignmentRow, a.store = other → (a.store == st) = false :=
    fun a ha => by simpa [ha] using hne
  cases h with
  | added row _ _ hstore hinsert =>
      obtain ⟨-, rfl⟩ := Table.insert_eq_ok _ hinsert
      exact ⟨rfl, rfl, rfl, rfl, rfl,
        Table.filter_place Table.assignments (hother row hstore) t.assignments, rfl⟩
  | removed row hmem _ hstore =>
      exact ⟨rfl, rfl, rfl, rfl, rfl, Table.filter_without ht hmem (hother row hstore), rfl⟩
  | switched row hmem _ hstore =>
      let row' : AssignmentRow := { row with isActive := !row.isActive }
      exact ⟨rfl, rfl, rfl, rfl, rfl,
        Table.filter_swapIn ht row' hmem rfl (hother row hstore) (hother row' hstore), rfl⟩

/-! ### Twins -/

/-- The graph that a session takes for the hierarchy of a store: the one that it keeps, or
that of the active edges. -/
def graphAt (s : Session) (st : ℤ) : Except Failure (RoleGraph ℤ) :=
  match s.graphs.find? (·.1.alike (.int st)) with
  | some kept => .ok kept.2
  | none => if fits st then .ok (s.tables.graphOf st) else .error .range

/-- The graphs that a session keeps are those of its tables. -/
def TrueGraphs (s : Session) : Prop :=
  ∀ g ∈ s.graphs, ∃ st, fits st ∧ g = (.int st, s.tables.graphOf st)

theorem TrueGraphs.graphAt (h : TrueGraphs s) (st : ℤ) :
    s.graphAt st = if fits st then .ok (s.tables.graphOf st) else .error .range := by
  unfold Session.graphAt
  cases hfind : s.graphs.find? (·.1.alike (.int st)) with
  | some kept =>
      obtain ⟨st', hfits, rfl⟩ := h kept (List.mem_of_find?_eq_some hfind)
      obtain rfl : st' = st := by simpa [Value.alike_int] using List.find?_some hfind
      exact (if_pos hfits).symm
  | none => rfl

/-- Two sessions go equally far down the hierarchy, have the same rows in a store, and take
the same graph for it. -/
structure Twins (st : ℤ) (s s' : Session) : Prop where
  depth : s'.settings.hierarchyMaxDepth = s.settings.hierarchyMaxDepth
  tables : s.tables.AgreesOn st s'.tables
  graph : s'.graphAt st = s.graphAt st

theorem Twins.trans {s₁ s₂ s₃ : Session} (h : Twins st s₁ s₂) (h' : Twins st s₂ s₃) :
    Twins st s₁ s₃ where
  depth := h'.depth.trans h.depth
  tables := h.tables.trans h'.tables
  graph := h'.graph.trans h.graph

/-- The second session is the first one after a look at its tables and at the graph of a store; if
all graphs that it kept were true, they still are. -/
structure Looks (st : ℤ) (s s' : Session) : Prop where
  settings : s'.settings = s.settings
  tables : s'.tables = s.tables
  saved : s'.saved = s.saved
  cache : s'.cache = s.cache
  graph : s'.graphAt st = s.graphAt st
  truth : TrueGraphs s → TrueGraphs s'

theorem Looks.refl (st : ℤ) (s : Session) : Looks st s s := ⟨rfl, rfl, rfl, rfl, rfl, id⟩

theorem Looks.trans {s₁ s₂ s₃ : Session} (h : Looks st s₁ s₂) (h' : Looks st s₂ s₃) :
    Looks st s₁ s₃ where
  settings := h'.settings.trans h.settings
  tables := h'.tables.trans h.tables
  saved := h'.saved.trans h.saved
  cache := h'.cache.trans h.cache
  graph := h'.graph.trans h.graph
  truth hs := h'.truth (h.truth hs)

theorem Twins.looks {s₁ s₁' : Session} (h : Twins st s s') (hs : Looks st s s₁)
    (hs' : Looks st s' s₁') :
    Twins st s₁ s₁' where
  depth := by rw [hs.settings, hs'.settings, h.depth]
  tables := by
    rw [hs.tables, hs'.tables]
    exact h.tables
  graph := by rw [hs.graph, hs'.graph, h.graph]

/-! ### Local operations -/

/-- An operation only looks at a session, and answers alike in twins. -/
structure Local (st : ℤ) (operation : SessionM α) : Prop where
  looks : ∀ s, Looks st s (outcome operation s).2
  agrees : ∀ ⦃s s'⦄, Twins st s s' → (outcome operation s').1 = (outcome operation s).1

theorem local_outcome {operation : SessionM α} (result : Session → Except Failure α)
    (hrun : ∀ s, outcome operation s = (result s, s))
    (hresult : ∀ ⦃s s'⦄, Twins st s s' → result s' = result s) :
    Local st operation where
  looks s := by
    rw [hrun]
    exact .refl st s
  agrees s s' h := by
    rw [hrun, hrun]
    exact hresult h

theorem local_pure (a : α) : Local st (pure a : SessionM α) :=
  local_outcome _ (fun _ => rfl) fun _ _ _ => rfl

theorem local_lift (x : Except Failure α) : Local st (liftM x : SessionM α) :=
  local_outcome _ (fun s => outcome_lift x s) fun _ _ _ => rfl

theorem lift_ok_bind (a : α) (next : α → SessionM β) :
    (liftM (Except.ok a : Except Failure α) >>= next) = next a :=
  rfl

theorem lift_error_bind (e : Failure) (next : α → SessionM β) :
    (liftM (Except.error e : Except Failure α) >>= next) = throw e := rfl

theorem local_bind {x : SessionM α} {f : α → SessionM β} (hx : Local st x)
    (hf : ∀ a, Local st (f a)) :
    Local st (x >>= f) where
  looks s := by
    have hfirst := hx.looks s
    rw [outcome_bind]
    generalize outcome x s = first at hfirst
    rcases first with ⟨_ | a, s₁⟩
    · exact hfirst
    · exact hfirst.trans ((hf a).looks s₁)
  agrees s s' h := by
    have hfirst := hx.agrees h
    have hlooks := hx.looks s
    have hlooks' := hx.looks s'
    rw [outcome_bind, outcome_bind]
    generalize outcome x s = first at hfirst hlooks
    generalize outcome x s' = first' at hfirst hlooks'
    rcases first with ⟨result, s₁⟩
    rcases first' with ⟨result', s₁'⟩
    obtain rfl : result' = result := hfirst
    cases result' with
    | error e => rfl
    | ok a => exact (hf a).agrees (h.looks hlooks hlooks')

theorem local_current {f : Session → SessionM β} (hf : ∀ s, Local st (f s))
    (hsame : ∀ ⦃s s'⦄, Twins st s s' → f s' = f s) : Local st (current >>= f) where
  looks s := by
    rw [outcome_bind, outcome_current, andThen_ok]
    exact (hf s).looks s
  agrees s s' h := by
    rw [outcome_bind, outcome_bind, outcome_current, outcome_current, andThen_ok, andThen_ok,
      hsame h]
    exact (hf s).agrees h

/-! ### Roles -/

theorem local_directRoleIds (user : ℤ) : Local st (directRoleIds (.int user) (.int st)) := by
  refine local_outcome (fun s => if fits user ∧
    fits st then .ok (s.tables.directRoles user st) else .error .range)
    (fun s => ?_) fun s s' h => by rw [h.tables.directRoles]
  unfold directRoleIds
  rw [outcome_bind, outcome_askedAll_pair]
  split <;> rfl

theorem looks_kept {g : RoleGraph ℤ} (hg : s.graphAt st = .ok g) :
    Looks st s { s with graphs := (.int st, g) :: s.graphs } := by
  refine ⟨rfl, rfl, rfl, rfl, ?_, fun htrue kept hkept => ?_⟩
  · have hsame : (Value.int st).alike (.int st) = true := by simp [Value.alike_int]
    rw [hg, graphAt, List.find?_cons, hsame]
  · rcases List.mem_cons.mp hkept with rfl | hkept
    · rw [htrue.graphAt] at hg
      split at hg
      · next hfits => exact ⟨st, hfits, by rw [Except.ok.inj hg]⟩
      · cases hg
    · exact htrue kept hkept

/-- The graph of a store is the one that the session takes for it. -/
theorem graph_spec (st : ℤ) (s : Session) :
    (outcome (graph (.int st)) s).1 = s.graphAt st ∧
      Looks st s (outcome (graph (.int st)) s).2 := by
  unfold graph
  simp only [Value.isScalar, Bool.not_true, Bool.false_eq_true, if_false, outcome_bind,
    outcome_current, andThen_ok]
  cases hfind : s.graphs.find? (·.1.alike (.int st)) with
  | some kept => exact ⟨by rw [graphAt, hfind]; rfl, .refl st s⟩
  | none =>
      rw [asked_int]
      by_cases hfits : fits st
      · have htaken : s.graphAt st = .ok (s.tables.graphOf st) := by
          rw [graphAt, hfind]
          exact if_pos hfits
        rw [if_pos hfits, htaken]
        exact ⟨rfl, looks_kept htaken⟩
      · have htaken : s.graphAt st = .error .range := by
          rw [graphAt, hfind]
          exact if_neg hfits
        rw [if_neg hfits, htaken]
        exact ⟨rfl, .refl st s⟩

theorem local_graph : Local st (graph (.int st)) where
  looks s := (graph_spec st s).2
  agrees s s' h := by rw [(graph_spec st s).1, (graph_spec st s').1, h.graph]

theorem local_lowerRoleIds (role : ℤ) : Local st (lowerRoleIds (.int role) (.int st)) := by
  unfold lowerRoleIds
  refine local_bind local_graph fun g => ?_
  exact local_current (fun s => local_pure _) fun s s' h => by rw [h.depth]

theorem local_lowerRoles (role : ℤ) : Local st (lowerRoles (.int role) (.int st)) := by
  refine local_bind (local_lowerRoleIds role) fun ids => ?_
  exact local_current (fun s => local_pure _) fun s s' h => by rw [h.tables.rolesWithIds]

theorem local_rolesBelow (roles : List ℤ) : Local st (rolesBelow (.int st) roles) := by
  induction roles with
  | nil => exact local_pure []
  | cons role roles ih =>
      exact local_bind (local_lowerRoleIds role) fun _ => local_bind ih fun _ => local_pure _

theorem local_effectiveRoleIds (user : ℤ) : Local st (effectiveRoleIds (.int user) (.int st)) :=
  local_bind (local_directRoleIds user) fun direct => local_bind (local_rolesBelow direct) fun _ =>
    local_pure _

theorem local_effectiveRoles (user : ℤ) : Local st (effectiveRoles (.int user) (.int st)) := by
  refine local_bind (local_effectiveRoleIds user) fun roles => ?_
  exact local_current (fun s => local_pure _) fun s s' h => by rw [h.tables.rolesWithIds]

theorem local_isHigher (role other : ℤ) : Local st (isHigher (.int role) (.int other) (.int st)) :=
  local_bind (local_lowerRoleIds role) fun _ => local_pure _

theorem local_managesAny (others roles : List ℤ) :
    Local st (managesAny (.int st) others roles) := by
  induction roles with
  | nil => exact local_pure false
  | cons role roles ih =>
      refine local_bind (local_lowerRoleIds role) fun below => ?_
      split
      · exact local_pure true
      · exact ih

theorem local_canAct (actor target : ℤ) :
    Local st (canAct (.int actor) (.int target) (.int st)) := by
  refine local_bind (local_effectiveRoleIds actor) fun mine =>
    local_bind (local_effectiveRoleIds target) fun others => ?_
  dsimp only
  split
  · exact local_pure false
  · exact local_managesAny _ _

/-! ### Permissions -/

theorem local_workOutPermissions (user : ℤ) :
    Local st (workOutPermissions (.int user) (.int st)) := by
  refine local_bind (local_effectiveRoleIds user) fun roles => ?_
  exact local_current (fun s => local_pure _) fun s s' h => by rw [h.tables.permissionsOfRoles]

theorem local_permissions (user : ℤ) :
    Local st (effectivePermissions false (.int user) (.int st)) :=
  local_bind (local_bind (local_workOutPermissions user) fun _ => local_pure _) fun _ =>
    local_pure _

/-! ### The hierarchy -/

theorem local_findEdge (higher lower : ℤ) :
    Local st (findEdge (.int higher) (.int lower) (.int st)) :=
  local_outcome _ (outcome_findEdge higher lower st) fun s s' h => by rw [h.tables.edge?]

theorem local_hasRole (role : ℤ) : Local st (exists? Tables.hasRole (.int role)) :=
  local_outcome _ (outcome_exists? Tables.hasRole role) fun s s' h => by
    rw [Tables.hasRole, Tables.hasRole, h.tables.roles]

theorem local_hasStore (store : ℤ) : Local st (exists? Tables.hasStore (.int store)) :=
  local_outcome _ (outcome_exists? Tables.hasStore store) fun s s' h => by
    rw [Tables.hasStore, Tables.hasStore, h.tables.stores]

theorem cycleProblems_congr (h : t.AgreesOn st t') (higher lower : ℤ) :
    cycleProblems t' (.int higher) (.int lower) (some st) =
      cycleProblems t (.int higher) (.int lower) (some st) := by
  simp only [cycleProblems, closedCycle, Option.elim_some, h.graphOf]

theorem local_edgeProblems (higher lower : ℤ) :
    Local st (edgeProblems (.int higher) (.int lower) (.int st)) := by
  refine local_bind (local_hasRole higher) fun higherThere =>
    local_bind (local_hasRole lower) fun lowerThere =>
    local_bind (local_hasStore st) fun storeThere => ?_
  dsimp only
  split
  · exact local_pure _
  · refine local_bind (local_findEdge higher lower) fun found => ?_
    split
    · -- Both roles are there, so a cycle is looked for.
      refine local_current (fun s => local_bind (local_lift _) fun _ => local_pure _) fun s s' h =>
        ?_
      rw [asked_int]
      split
      · rw [lift_ok_bind, lift_ok_bind, cycleProblems_congr h.tables]
      · rw [lift_error_bind, lift_error_bind]
    · exact local_pure _

theorem local_storeEdges : Local st (storeEdges (.int st)) := by
  refine local_outcome (fun s => if fits st then .ok (s.tables.activeEdges st) else .error .range)
    (fun s => ?_) fun s s' h => by rw [h.tables.activeEdges]
  unfold storeEdges
  rw [asked_int]
  split <;> rfl

mutual
theorem treeValue_congr (h : t.AgreesOn st t') (tree : RoleGraph.Tree ℤ) :
    treeValue t' tree = treeValue t tree := by
  obtain ⟨role, children⟩ := tree
  have hrole : Table.roles.get? t' role = Table.roles.get? t role := congrArg (List.find? _) h.roles
  rw [treeValue, treeValue, hrole, h.permissionsOfRoles, treeValues_congr h children]
theorem treeValues_congr (h : t.AgreesOn st t') (trees : List (RoleGraph.Tree ℤ)) :
    treeValues t' trees = treeValues t trees := by
  cases trees with
  | nil => rw [treeValues, treeValues]
  | cons tree trees => rw [treeValues, treeValues, treeValue_congr h tree, treeValues_congr h trees]
end

theorem local_hierarchyTree : Local st (hierarchyTree (.int st)) := by
  refine local_bind local_graph fun g => ?_
  exact local_current (fun s => local_pure _) fun s s' h => by rw [treeValues_congr h.tables]

/-! ### Answers -/

/-- All questions about the roles, the permissions and the hierarchy of a store are answered
alike, without a cache. -/
structure SameAnswers (st : ℤ) (s s' : Session) : Prop where
  permissions : ∀ user, (outcome (effectivePermissions false (.int user) (.int st)) s').1 =
    (outcome (effectivePermissions false (.int user) (.int st)) s).1
  effectiveRoles : ∀ user, (outcome (effectiveRoles (.int user) (.int st)) s').1 =
    (outcome (effectiveRoles (.int user) (.int st)) s).1
  lowerRoleIds : ∀ role, (outcome (lowerRoleIds (.int role) (.int st)) s').1 =
    (outcome (lowerRoleIds (.int role) (.int st)) s).1
  isHigher : ∀ role other, (outcome (isHigher (.int role) (.int other) (.int st)) s').1 =
    (outcome (isHigher (.int role) (.int other) (.int st)) s).1
  canAct : ∀ actor target, (outcome (canAct (.int actor) (.int target) (.int st)) s').1 =
    (outcome (canAct (.int actor) (.int target) (.int st)) s).1
  edgeProblems :
      ∀ higher lower, (outcome (edgeProblems (.int higher) (.int lower) (.int st)) s').1 =
    (outcome (edgeProblems (.int higher) (.int lower) (.int st)) s).1
  storeEdges : (outcome (storeEdges (.int st)) s').1 = (outcome (storeEdges (.int st)) s).1
  tree : (outcome (hierarchyTree (.int st)) s').1 = (outcome (hierarchyTree (.int st)) s).1

theorem Twins.sameAnswers (h : Twins st s s') : SameAnswers st s s' where
  permissions user := (local_permissions user).agrees h
  effectiveRoles user := (local_effectiveRoles user).agrees h
  lowerRoleIds role := (local_lowerRoleIds role).agrees h
  isHigher role other := (local_isHigher role other).agrees h
  canAct actor target := (local_canAct actor target).agrees h
  edgeProblems higher lower := (local_edgeProblems higher lower).agrees h
  storeEdges := local_storeEdges.agrees h
  tree := local_hierarchyTree.agrees h

theorem twins_of_agreesOn (hs : TrueGraphs s) (hs' : TrueGraphs s')
    (hdepth : s'.settings.hierarchyMaxDepth = s.settings.hierarchyMaxDepth)
    (htables : s.tables.AgreesOn st s'.tables) :
    Twins st s s' := ⟨hdepth, htables, by rw [hs.graphAt, hs'.graphAt, htables.graphOf]⟩

end Session
end AccessControl
