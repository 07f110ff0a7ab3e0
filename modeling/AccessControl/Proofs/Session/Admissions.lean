import AccessControl.Proofs.Hierarchy.ClosedPaths
import AccessControl.Proofs.Hierarchy.Linked
import AccessControl.Proofs.Session.Peers
import Mathlib

/-! # Which edges are accepted

An edge is refused for what is missing, for joining a role to itself, for being there, and for the
cycle that it would close.  In an acyclic hierarchy it closes one if and only if its upper end is
below its lower end, and the cycle that is reported runs through the new edge
(`cycleProblems_spec`).  So the search of the whole graph decides a question about two roles
(`edgeFaults_eq_nil`), after any moves of a session (`edge_accepted_iff`).  What is refused leaves
the edges, the epochs and all answers as they are (`Noted.unaltered`). -/

namespace AccessControl
namespace Session

open Database Cache

variable {shared : Bool} {left : ℕ} {s s' : Session} {m : View} {t : Tables} {h l st : ℤ}

/-! ### Circular paths -/

/-- A problem shows a circular path: a cycle of the active edges of a store and one edge more, with
the lower end of this edge right behind its upper end. -/
def Circular (t : Tables) (h l st : ℤ) (problem : String) : Prop :=
  ∃ cycle : List ℤ, IsCycle (fun a b => t.Manages st a b ∨ (a = h ∧ b = l)) cycle ∧
    [h, l] <:+: cycle ∧
    problem = "This would create a circular hierarchy (" ++
      String.intercalate " -> " (cycle.map Text.intText) ++ ")"

theorem findCycle_joined_eq_none (ht : ∀ role, ¬ Relation.TransGen (t.Manages st) role role) :
    (joined t h l st).findCycle = none ↔ ¬ Relation.ReflTransGen (t.Manages st) l h := by
  have hg : (joined t h l st).WellFormed :=
    RoleGraph.wellFormed_addEdge (RoleGraph.wellFormed_ofEdges _) h l
  rw [RoleGraph.findCycle_eq_none_iff hg]
  exact acyclic_iff_not_reached ht (manages_joined t h l st)

theorem circular_of_findCycle (ht : ∀ role, ¬ Relation.TransGen (t.Manages st) role role)
    {cycle : List ℤ} (hcycle : (joined t h l st).findCycle = some cycle) :
    Circular t h l st
      ("This would create a circular hierarchy (" ++
        String.intercalate " -> " (cycle.map Text.intText) ++ ")") := by
  have hnew : ∀ a b, (joined t h l st).Manages a b → t.Manages st a b ∨ (a = h ∧ b = l) :=
    fun a b => (manages_joined t h l st a b).mp
  have hfound : IsCycle (joined t h l st).Manages cycle := RoleGraph.isCycle_of_findCycle hcycle
  exact ⟨cycle, hfound.mono hnew, hfound.infix_of_acyclic ht hnew, rfl⟩

/-- An edge has a problem of its cycle if and only if its upper end is below its lower end; the
problem shows the cycle. -/
theorem cycleProblems_spec (ht : ∀ role, ¬ Relation.TransGen (t.Manages st) role role) :
    (¬ Relation.ReflTransGen (t.Manages st) l h ∧
      cycleProblems t (.int h) (.int l) (some st) = []) ∨
      (Relation.ReflTransGen (t.Manages st) l h ∧
        ∃ problem, cycleProblems t (.int h) (.int l) (some st) = [problem] ∧
          Circular t h l st problem) := by
  have hclosed : closedCycle t (.int h) (.int l) (some st) =
      (joined t h l st).findCycle.map (·.map Text.intText) := rfl
  unfold cycleProblems
  rw [hclosed]
  cases hcycle : (joined t h l st).findCycle with
  | none => exact .inl ⟨(findCycle_joined_eq_none ht).mp hcycle, rfl⟩
  | some cycle =>
      refine .inr ⟨?_, _, rfl, circular_of_findCycle ht hcycle⟩
      by_contra hnot
      rw [(findCycle_joined_eq_none ht).mpr hnot] at hcycle
      cases hcycle

/-! ### Problems -/

/-- The problems of an edge whose numbers the database can hold. -/
def edgeFaults (t : Tables) (h l st : ℤ) : List String :=
  let missing :=
    (if t.hasRole h then [] else ["Higher role does not exist"]) ++
    (if t.hasRole l then [] else ["Lower role does not exist"]) ++
    (if t.hasStore st then [] else ["Store does not exist"])
  if h = l then missing ++ ["A role cannot manage itself"]
  else
    missing ++
      (if (t.edge? h l st).isSome then ["This hierarchy relationship already exists"] else []) ++
      (if t.hasRole h && t.hasRole l then cycleProblems t (.int h) (.int l) (some st) else [])

/-- The problems of an edge other than its cycle. -/
def plainFaults : List String :=
  ["Higher role does not exist", "Lower role does not exist", "Store does not exist",
   "A role cannot manage itself", "This hierarchy relationship already exists"]

/-- An edge may be added: its roles and its store are there, it joins two roles, which no
edge of the store joins, active or not, and no path of active edges leads from its lower
end to its upper end. -/
structure Admissible (t : Tables) (h l st : ℤ) : Prop where
  higher : t.hasRole h = true
  lower : t.hasRole l = true
  store : t.hasStore st = true
  distinct : h ≠ l
  free : ∀ e ∈ t.edges, ¬ (e.higher = h ∧ e.lower = l ∧ e.store = st)
  unreached : ¬ Relation.ReflTransGen (t.Manages st) l h

theorem edge?_eq_none :
    t.edge? h l st = none ↔ ∀ e ∈ t.edges, ¬ (e.higher = h ∧ e.lower = l ∧ e.store = st) := by
  simp only [Tables.edge?, List.find?_eq_none, EdgeRow.links, Bool.and_eq_true, beq_iff_eq,
    and_assoc]

/-- An edge has no problem if and only if it may be added. -/
theorem edgeFaults_eq_nil (ht : ∀ role, ¬ Relation.TransGen (t.Manages st) role role) :
    edgeFaults t h l st = [] ↔ Admissible t h l st := by
  unfold edgeFaults
  constructor
  · intro hnil
    by_cases hhl : h = l
    · simp [hhl] at hnil
    · simp only [hhl, if_false, List.append_eq_nil_iff] at hnil
      obtain ⟨⟨⟨⟨hh, hl⟩, hs⟩, hfree⟩, hcycle⟩ := hnil
      have hh : t.hasRole h = true := by simpa using hh
      have hl : t.hasRole l = true := by simpa using hl
      have hs : t.hasStore st = true := by simpa using hs
      have hfree : t.edge? h l st = none := by simpa using hfree
      refine ⟨hh, hl, hs, hhl, edge?_eq_none.mp hfree, ?_⟩
      rw [hh, hl, Bool.and_self, if_pos rfl] at hcycle
      rcases cycleProblems_spec ht (h := h) (l := l) with ⟨hnot, -⟩ | ⟨-, problem, hproblem, -⟩
      · exact hnot
      · rw [hproblem] at hcycle
        cases hcycle
  · rintro ⟨hh, hl, hs, hhl, hfree, hnot⟩
    have hcycle : cycleProblems t (.int h) (.int l) (some st) = [] :=
      (cycleProblems_spec ht).elim And.right fun hreached => absurd hreached.1 hnot
    have hedge : t.edge? h l st = none := edge?_eq_none.mpr hfree
    simp [hh, hl, hs, hhl, hedge, hcycle]

/-- A problem is a plain one or shows a circular path. -/
theorem mem_edgeFaults (ht : ∀ role, ¬ Relation.TransGen (t.Manages st) role role)
    {problem : String} (hmem : problem ∈ edgeFaults t h l st) :
    problem ∈ plainFaults ∨ Circular t h l st problem := by
  have hcycle : problem ∈ cycleProblems t (.int h) (.int l) (some st) →
      Circular t h l st problem := by
    intro hmem
    rcases cycleProblems_spec ht (h := h) (l := l) with ⟨-, hnil⟩ | ⟨-, shown, hshown, hcircular⟩
    · rw [hnil] at hmem
      cases hmem
    · rw [hshown, List.mem_singleton] at hmem
      exact hmem ▸ hcircular
  have hplain : ∀ (c : Prop) [Decidable c] (text : String), text ∈ plainFaults →
      problem ∈ (if c then [] else [text]) ∨ problem ∈ (if c then [text] else []) →
        problem ∈ plainFaults := by
    intro c _ text htext hmem
    by_cases hc : c <;> simp only [hc, if_true, if_false, List.mem_singleton, List.not_mem_nil,
      or_false, false_or] at hmem
    · exact hmem ▸ htext
    · exact hmem ▸ htext
  unfold edgeFaults at hmem
  by_cases hhl : h = l
  · simp only [hhl, if_true, List.mem_append, List.mem_singleton] at hmem
    rcases hmem with ((hmem | hmem) | hmem) | hmem
    · exact .inl (hplain _ _ (by simp [plainFaults]) (.inl hmem))
    · exact .inl (hplain _ _ (by simp [plainFaults]) (.inl hmem))
    · exact .inl (hplain _ _ (by simp [plainFaults]) (.inl hmem))
    · exact .inl (hmem ▸ by simp [plainFaults])
  · simp only [hhl, if_false, List.mem_append] at hmem
    rcases hmem with (((hmem | hmem) | hmem) | hmem) | hmem
    · exact .inl (hplain _ _ (by simp [plainFaults]) (.inl hmem))
    · exact .inl (hplain _ _ (by simp [plainFaults]) (.inl hmem))
    · exact .inl (hplain _ _ (by simp [plainFaults]) (.inl hmem))
    · exact .inl (hplain _ _ (by simp [plainFaults]) (.inr hmem))
    · split at hmem
      · exact .inr (hcycle hmem)
      · cases hmem

theorem exists_circular (ht : ∀ role, ¬ Relation.TransGen (t.Manages st) role role)
    (hh : t.hasRole h = true) (hl : t.hasRole l = true) (hhl : h ≠ l)
    (hreached : Relation.ReflTransGen (t.Manages st) l h) :
    ∃ problem ∈ edgeFaults t h l st, Circular t h l st problem := by
  rcases cycleProblems_spec ht (h := h) (l := l) with ⟨hnot, -⟩ | ⟨-, problem, hproblem, hcircular⟩
  · exact absurd hreached hnot
  · refine ⟨problem, ?_, hcircular⟩
    simp [edgeFaults, hhl, hh, hl, hproblem]

/-! ### Checks -/

/-- A check gives the problems of an edge, if the database can hold its numbers. -/
theorem outcome_edgeProblems_eq (h l st : ℤ) (s : Session) :
    outcome (edgeProblems (.int h) (.int l) (.int st)) s =
    (if fits h ∧ fits l ∧ fits st then .ok (edgeFaults s.tables h l st) else .error .range, s) := by
  unfold edgeProblems edgeFaults
  simp only [outcome_bind, outcome_exists?]
  by_cases hall : fits h ∧ fits l ∧ fits st
  · obtain ⟨hh, hl, hs⟩ := hall
    simp only [hh, hl, hs, and_self, if_true, andThen_ok, Value.alike_int, decide_eq_true_eq]
    by_cases hhl : h = l
    · simp [hhl]
    · simp only [hhl, if_false, outcome_bind, outcome_findEdge, hh, hl, hs, and_self, if_true,
        andThen_ok]
      cases s.tables.hasRole h <;> cases s.tables.hasRole l <;> simp [asked_int, hs]
  · -- The first number that does not fit stops the check.
    rw [if_neg hall]
    by_cases hh : fits h
    · by_cases hl : fits l
      · have hs : ¬ fits st := fun hs => hall ⟨hh, hl, hs⟩
        simp only [if_pos hh, if_pos hl, if_neg hs, andThen_ok, andThen_error]
      · simp only [if_pos hh, if_neg hl, andThen_ok, andThen_error]
    · simp only [if_neg hh, andThen_error]

/-! ### Changes -/

theorem outcome_hierarchyChanged (hs : Orderly shared (left + 1) s m) (cached : Bool) (st : ℤ)
    (t : Tables) :
    ∃ s', outcome (hierarchyChanged cached (.int st)) { s with tables := t } = (.ok (), s') := by
  unfold hierarchyChanged
  cases cached with
  | false => exact ⟨_, rfl⟩
  | true =>
      obtain ⟨n, -, c, hrun, -⟩ :=
        yields_bumpStoreEpoch hs.represents st (hs.holds.epoch st) (fun n hn => hs.room hn)
          hs.countable
      simp only [outcome_bind, outcome_modifyThe, andThen_ok, if_true, outcome_onCache, hrun,
        outcome_pure]
      exact ⟨_, rfl⟩

/-- An edge that may be added is admitted beside the others. -/
theorem insert_of_admissible (ht : t.Linked) (hadmissible : Admissible t h l st) (data : Value)
    (flag : Bool) :
    ∃ t', Table.edges.insert t ⟨Table.edges.nextId t, h, l, st, data, flag⟩ = .ok t' := by
  have hadmits : Table.edges.admits t t.edges ⟨Table.edges.nextId t, h, l, st, data, flag⟩ =
      true := by
    unfold Table.admits
    rw [Bool.and_eq_true]
    constructor
    · rw [Bool.not_eq_true', List.any_eq_false]
      intro e he
      have hid : e.id < Table.edges.nextId t := ht.ascending.lt_nextId e he
      have hfree := hadmissible.free e he
      simp only [Bool.or_eq_true, beq_iff_eq, not_or]
      refine ⟨hid.ne, ?_⟩
      simpa [Table.edges, EdgeRow.links, and_assoc] using hfree
    · simp [Table.edges, hadmissible.higher, hadmissible.lower, hadmissible.store]
  exact ⟨_, if_pos hadmits⟩

/-- A call is accepted. -/
def Accepted {α : Type} (r : Except Failure α × Session) : Prop := ∃ shown, r.1 = .ok shown

/-- An edge that may be added is added. -/
theorem accepted_addEdge (hs : Orderly shared (left + 1) s m) (hlinked : s.tables.Linked)
    (hadmissible : Admissible s.tables h l st) (cached : Bool) (data : Value) (flag : Bool) :
    Accepted (outcome (addEdge cached (.int h) (.int l) (.int st) data (.bool flag)) s) := by
  have hh : fits h := hlinked.roles h hadmissible.higher
  have hl : fits l := hlinked.roles l hadmissible.lower
  have hst : fits st := hlinked.stores st hadmissible.store
  obtain ⟨t, hinsert⟩ := insert_of_admissible hlinked hadmissible (asData data) flag
  obtain ⟨s₁, hchanged⟩ := outcome_hierarchyChanged hs cached st t
  unfold addEdge
  rw [outcome_bind, outcome_edgeProblems_eq, if_pos ⟨hh, hl, hst⟩,
    (edgeFaults_eq_nil (hlinked.sound.acyclic st)).mpr hadmissible, andThen_ok, if_neg (by decide),
      newFlag_bool,
    reference_int, reference_int, reference_int, if_pos hh, if_pos hl, if_pos hst]
  simp only [outcome_bind, outcome_lift, outcome_current, andThen_ok, hinsert, outcome_setTables,
    hchanged]
  exact ⟨_, rfl⟩

/-- An edge that may not be added is refused with its problems, or for a number that the database
cannot hold; nothing but a note is made. -/
theorem refused_addEdge (hlinked : s.tables.Linked) (hnot : ¬ Admissible s.tables h l st)
    (cached : Bool) (data : Value) (flag : Bool) :
    let r := outcome (addEdge cached (.int h) (.int l) (.int st) data (.bool flag)) s
    Noted s r.2 ∧
      (r.1 = if fits h ∧ fits l ∧ fits st then .error (.edge (edgeFaults s.tables h l st))
      else .error .range) := by
  intro r
  have hrun : outcome (edgeProblems (.int h) (.int l) (.int st)) s = _ :=
    outcome_edgeProblems_eq h l st s
  simp only [r]
  unfold addEdge
  rw [outcome_bind, hrun]
  by_cases hfits : fits h ∧ fits l ∧ fits st
  · have hfaults : edgeFaults s.tables h l st ≠ [] :=
      fun hnil => hnot ((edgeFaults_eq_nil (hlinked.sound.acyclic st)).mp hnil)
    rw [if_pos hfits, if_pos hfits, andThen_ok]
    cases hproblems : edgeFaults s.tables h l st with
    | nil => exact absurd hproblems hfaults
    | cons problem problems => exact ⟨noted_records s _, rfl⟩
  · rw [if_neg hfits, if_neg hfits]
    exact ⟨.refl s, rfl⟩

theorem edge?_of_mem (ht : t.SoundEdges) {row : EdgeRow} (hrow : row ∈ t.edges) :
    t.edge? row.higher row.lower row.store = some row := by
  cases hfound : t.edge? row.higher row.lower row.store with
  | none => exact absurd ⟨rfl, rfl, rfl⟩ (edge?_eq_none.mp hfound row hrow)
  | some found =>
      obtain ⟨hmem, hh, hl, hs⟩ := edge?_eq_some hfound
      have hdistinct : (t.edges.map fun e => (e.higher, e.lower, e.store)).Nodup :=
        List.pairwise_map.mpr ht.once
      have hsame : found = row := List.inj_on_of_nodup_map hdistinct hmem hrow (by rw [hh, hl, hs])
      rw [hsame]

/-- An inactive row is switched on, unless the upper end of its edge is below the lower end: then it
is refused with the circular path, and nothing but a note is made. -/
theorem outcome_switchOn (hs : Orderly shared (left + 1) s m) (hlinked : s.tables.Linked)
    {row : EdgeRow} (hrow : row ∈ s.tables.edges) (hinactive : row.isActive = false)
    (cached : Bool) :
    let r :=
  outcome (setEdgeActive cached (.int row.higher) (.int row.lower) (.int row.store) (.bool true)) s
    let reached := Relation.ReflTransGen (s.tables.Manages row.store) row.lower row.higher
    (¬ reached ∧ Accepted r) ∨ (reached ∧ Noted s r.2 ∧
      ∃ problem, r.1 = .error (.edge [problem]) ∧
        Circular s.tables row.higher row.lower row.store problem) := by
  intro r reached
  obtain ⟨hh, hl, hst⟩ := hlinked.ends row hrow
  have hfits : fits row.higher ∧ fits row.lower ∧ fits row.store :=
    ⟨hlinked.roles _ hh, hlinked.roles _ hl, hlinked.stores _ hst⟩
  have hdiffers : (Value.bool row.isActive).alike (.bool true) = false := by
    rw [hinactive]
    decide
  simp only [r]
  unfold setEdgeActive
  rw [outcome_bind, outcome_findEdge, if_pos hfits, edge?_of_mem hlinked.sound hrow, andThen_ok]
  dsimp only
  rw [hdiffers, if_neg Bool.false_ne_true, outcome_bind, outcome_current, andThen_ok]
  rw [if_pos (show (Value.bool true).isTruthy = true from rfl)]
  rcases cycleProblems_spec (hlinked.sound.acyclic row.store) (h := row.higher) (l := row.lower)
    with
    ⟨hnot, hnil⟩ | ⟨hreached, problem, hproblem, hcircular⟩
  · refine .inl ⟨hnot, ?_⟩
    obtain ⟨s₁, hchanged⟩ :=
      outcome_hierarchyChanged hs cached row.store
        (Table.edges.replace s.tables { row with isActive := true })
    rw [hnil, if_neg (by decide), flagOf_bool]
    simp only [outcome_bind, outcome_lift, andThen_ok, outcome_setTables, hchanged]
    exact ⟨_, rfl⟩
  · refine .inr ⟨hreached, ?_⟩
    rw [hproblem, if_pos (by rfl)]
    exact ⟨noted_records s _, problem, rfl, hcircular⟩

/-! ### What a refusal leaves -/

/-- A question is answered alike in two sessions, through the cache or without it. -/
def AnsweredAlike (cached : Bool) (s s' : Session) : Query → Prop
  | .permissions user store =>
    (outcome (effectivePermissions cached (.int user) (.int store)) s').1 =
      (outcome (effectivePermissions cached (.int user) (.int store)) s).1
  | .hasPermission user name store =>
    (outcome (hasPermission cached (.int user) (.text name) (.int store)) s').1 =
      (outcome (hasPermission cached (.int user) (.text name) (.int store)) s).1
  | .hasAllStores user =>
    (outcome (hasAllStores cached (.int user)) s').1 =
      (outcome (hasAllStores cached (.int user)) s).1
  | .lowerRoles role store =>
    (outcome (lowerRoles (.int role) (.int store)) s').1 =
      (outcome (lowerRoles (.int role) (.int store)) s).1
  | .isHigher role other store =>
    (outcome (isHigher (.int role) (.int other) (.int store)) s').1 =
      (outcome (isHigher (.int role) (.int other) (.int store)) s).1
  | .tree store =>
      (outcome (hierarchyTree (.int store)) s').1 = (outcome (hierarchyTree (.int store)) s).1
  | .effectiveRoles user store =>
    (outcome (effectiveRoles (.int user) (.int store)) s').1 =
      (outcome (effectiveRoles (.int user) (.int store)) s).1
  | .canAct actor target store =>
    (outcome (canAct (.int actor) (.int target) (.int store)) s').1 =
      (outcome (canAct (.int actor) (.int target) (.int store)) s).1

/-- The second session has the edges, the epochs and the answers of the first one. -/
structure Unaltered (s s' : Session) : Prop where
  edges : s'.tables.edges = s.tables.edges
  saved : s'.saved.edges = s.saved.edges
  epochs :
      ∀ st, (outcome (storeEpoch (.int st)) s'.cache).1 = (outcome (storeEpoch (.int st)) s.cache).1
  checks : ∀ st, SameAnswers st s s'
  questions : ∀ (cached : Bool) (query : Query), AnsweredAlike cached s s' query

theorem Noted.beside (h : Noted s s') (st : ℤ) : Beside st s s' :=
  ⟨h.settings, h.tables, h.saved, h.cache, (h.untouched (fun _ => none)).twins.graph⟩

theorem agreeing_hasAllStores (cached : Bool) (u : ℤ) :
    Agreeing st (hasAllStores cached (.int u)) := by
  have hwork : Agreeing st (workOutAllStores (.int u)) := by
    refine agreeing_current (fun s => ?_) fun s s' h => by rw [h.tables]
    split
    · refine agreeing_bind (agreeing_lift _) fun n => ?_
      exact agreeing_current (fun s => agreeing_pure _) fun s s' h => by rw [h.tables]
    · exact agreeing_pure _
  unfold hasAllStores
  cases cached with
  | false => exact hwork
  | true =>
      simp only [if_true]
      refine agreeing_bind (agreeing_onCache _) fun key => ?_
      refine agreeing_current (fun s => agreeing_bind ?_ fun _ => agreeing_pure _) fun s s' h => by
        rw [h.settings]
      exact agreeing_getOrCompute _ _ _ (agreeing_bind hwork fun _ => agreeing_pure _)

/-- Notes alter nothing. -/
theorem Noted.unaltered (h : Noted s s') : Unaltered s s' where
  edges := by rw [h.tables]
  saved := by rw [h.saved]
  epochs st := by rw [h.cache]
  checks st := (h.beside st).twins.sameAnswers
  questions cached query := by
    cases query with
    | permissions user store => exact (agreeing_effectivePermissions cached user (h.beside store)).1
    | hasPermission user name store =>
        have hagreeing :
            Agreeing store (hasPermission cached (.int user) (.text name) (.int store)) :=
          agreeing_bind (agreeing_permissionMembers cached user) fun _ => agreeing_pure _
        exact (hagreeing (h.beside store)).1
    | hasAllStores user => exact (agreeing_hasAllStores cached user (h.beside 0)).1
    | lowerRoles role store => exact (local_lowerRoles role).agrees (h.beside store).twins
    | isHigher role other store => exact (local_isHigher role other).agrees (h.beside store).twins
    | tree store => exact local_hierarchyTree.agrees (h.beside store).twins
    | effectiveRoles user store => exact (local_effectiveRoles user).agrees (h.beside store).twins
    | canAct actor target store => exact (local_canAct actor target).agrees (h.beside store).twins

/-! ### Reachable states -/

theorem Linked.ends_of_reached (ht : t.Linked) (hne : h ≠ l)
    (hreached : Relation.ReflTransGen (t.Manages st) l h) :
    t.hasRole h = true ∧ t.hasRole l = true ∧ t.hasStore st = true := by
  rcases Relation.ReflTransGen.cases_head hreached with heq | ⟨_, ⟨e, he, hs, -, hl, -⟩, -⟩
  · exact absurd heq.symm hne
  · rcases Relation.ReflTransGen.cases_tail hreached with heq | ⟨_, -, ⟨e', he', -, -, -, hh⟩⟩
    · exact absurd heq hne
    · obtain ⟨hlower, -, hstore⟩ := ht.ends e he
      obtain ⟨-, hhigher, -⟩ := ht.ends e' he'
      exact ⟨hh ▸ hhigher, hl ▸ hlower, hs ▸ hstore⟩

/-- A refused edge has plain problems and circular paths only, and a circular path whenever its
upper end is below its lower end. -/
structure Explains {α : Type} (t : Tables) (h l st : ℤ) (result : Except Failure α) : Prop where
  problems : ∀ problems, result = .error (.edge problems) →
    ∀ problem ∈ problems, problem ∈ plainFaults ∨ Circular t h l st problem
  circular : h ≠ l → Relation.ReflTransGen (t.Manages st) l h →
    ∃ problems, result = .error (.edge problems) ∧ ∃ problem ∈ problems, Circular t h l st problem

theorem explains_edgeFaults {α : Type} {result : Except Failure α} (ht : t.Linked)
    (hresult : result = if fits h ∧ fits l ∧
      fits st then .error (.edge (edgeFaults t h l st)) else .error .range) :
    Explains t h l st result where
  problems problems heq := by
    rw [hresult] at heq
    split at heq
    · obtain rfl : edgeFaults t h l st = problems := by simpa using heq
      exact fun problem hmem => mem_edgeFaults (ht.sound.acyclic st) hmem
    · simp at heq
  circular hne hreached := by
    obtain ⟨hh, hl, hs⟩ := Linked.ends_of_reached ht hne hreached
    rw [if_pos ⟨ht.roles h hh, ht.roles l hl, ht.stores st hs⟩] at hresult
    exact ⟨_, hresult, exists_circular (ht.sound.acyclic st) hh hl hne hreached⟩

/-- After any moves of a session that began without edges, an edge is added if and only if its
roles and its store are there, it joins two roles that no row joins in the store, and no path
of active edges leads from its lower end to its upper end; and an inactive row is switched on
under this last condition alone.  What is refused leaves the edges, the epochs and all answers
as they are, and the circular paths that are reported are cycles of the active edges and the
new one, through the new one. -/
theorem edge_accepted_iff (s : Session) (moves : List Move) (hs : Unlinked shared s moves)
    (cached : Bool) :
    let s' := s.afterMoves moves
    (∀ h l st data flag,
      let r := outcome (addEdge cached (.int h) (.int l) (.int st) data (.bool flag)) s'
      (Accepted r ↔ Admissible s'.tables h l st) ∧
        (¬ Accepted r → Unaltered s' r.2 ∧ Explains s'.tables h l st r.1)) ∧
    (∀ row ∈ s'.tables.edges, row.isActive = false →
      let r :=
        outcome (setEdgeActive cached (.int row.higher) (.int row.lower) (.int row.store)
          (.bool true)) s'
      (Accepted r ↔ ¬ Relation.ReflTransGen (s'.tables.Manages row.store) row.lower row.higher) ∧
        (¬ Accepted r → Unaltered s' r.2 ∧
          Explains s'.tables row.higher row.lower row.store r.1)) := by
  intro s'
  obtain ⟨hlinked, m, hm⟩ := hs.linked
  have ht : s'.tables.Linked := hlinked.tables
  constructor
  · intro h l st data flag r
    by_cases hadmissible : Admissible s'.tables h l st
    · have haccepted : Accepted r := accepted_addEdge hm ht hadmissible cached data flag
      exact ⟨⟨fun _ => hadmissible, fun _ => haccepted⟩, fun hnot => absurd haccepted hnot⟩
    · obtain ⟨hnoted, hresult⟩ := refused_addEdge ht hadmissible cached data flag
      have hrefused : ¬ Accepted r := by
        rintro ⟨shown, hshown⟩
        rw [hresult] at hshown
        split at hshown <;> cases hshown
      refine ⟨⟨fun haccepted => absurd haccepted hrefused, fun h => absurd h hadmissible⟩,
        fun _ => ?_⟩
      exact ⟨hnoted.unaltered, explains_edgeFaults ht hresult⟩
  · intro row hrow hinactive r
    rcases outcome_switchOn hm ht hrow hinactive cached with
      ⟨hnot, haccepted⟩ | ⟨hreached, hnoted, problem, hresult, hcircular⟩
    · exact ⟨⟨fun _ => hnot, fun _ => haccepted⟩, fun hrefused => absurd haccepted hrefused⟩
    · have hrefused : ¬ Accepted r := by
        rintro ⟨shown, hshown⟩
        rw [hresult] at hshown
        cases hshown
      refine ⟨⟨fun haccepted => absurd haccepted hrefused, fun h => absurd hreached h⟩,
        fun _ => ⟨hnoted.unaltered, ?_, ?_⟩⟩
      · intro problems heq problem' hmem
        have hsame := hresult.symm.trans heq
        obtain rfl : [problem] = problems := by simpa using hsame
        exact .inr (List.mem_singleton.mp hmem ▸ hcircular)
      · exact fun _ _ => ⟨[problem], hresult, problem, List.mem_singleton_self problem, hcircular⟩

/-- Once the user heads the store, the head may be put above the staff. -/
theorem edge_accepted_iff_oneStore :
    Unlinked false oneStore [.action (.event (.assignment (.assign 1 1 1 .null true)))] ∧
    Accepted (outcome (addEdge true (.int 1) (.int 2) (.int 1) .null (.bool true))
      (oneStore.afterMoves [.action (.event (.assignment (.assign 1 1 1 .null true)))])) := by
  have hunlinked :
      Unlinked false oneStore [.action (.event (.assignment (.assign 1 1 1 .null true)))] := by
    refine ⟨fun call => ready_memory rfl rfl rfl rfl rfl rfl (by simp [Move.Delivered]), rfl,
      fun n hn => ?_, fun n hn => ?_⟩
    · have hroles : (1 == n || (2 == n || false)) = true := hn
      obtain rfl | rfl : 1 = n ∨ 2 = n := by simpa using hroles
      · decide
      · decide
    · have hstores : (1 == n || false) = true := hn
      obtain rfl : 1 = n := by simpa using hstores
      decide
  refine ⟨hunlinked, ((edge_accepted_iff oneStore _ hunlinked true).1 1 2 1 .null true).1.mpr ?_⟩
  have hedges :
      (oneStore.afterMoves
        [.action (.event (.assignment (.assign 1 1 1 .null true)))]).tables.edges = [] :=
    List.isEmpty_iff.mp (by decide +kernel)
  refine ⟨by decide +kernel, by decide +kernel, by decide +kernel, by decide, fun e he =>
    ?_, fun hreached => ?_⟩
  · rw [hedges] at he
    cases he
  · rcases Relation.ReflTransGen.cases_head hreached with heq | ⟨_, ⟨e, he, -⟩, -⟩
    · cases heq
    · rw [hedges] at he
      cases he

end Session
end AccessControl
