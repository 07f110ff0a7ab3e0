import AccessControl.Proofs.Database.Rows
import AccessControl.Proofs.Session.Outcome
import AccessControl.Proofs.Value.Member
import AccessControl.Session.Hierarchy
import Mathlib

/-! # What the operations of the hierarchy do

A call of the hierarchy either leaves a session as it is, notes apart, or makes one change to the
edges of its store (`EdgeChange`) and then forgets what was derived from them
(`step_hierarchyCall`). -/

namespace AccessControl
namespace Session

open Database

/-! ### Notes -/

/-- The second session is the first one after some notes. -/
structure Noted (s s' : Session) : Prop where
  settings : s'.settings = s.settings
  tables : s'.tables = s.tables
  saved : s'.saved = s.saved
  graphs : s'.graphs = s.graphs
  cache : s'.cache = s.cache

theorem Noted.refl (s : Session) : Noted s s := ⟨rfl, rfl, rfl, rfl, rfl⟩

theorem Noted.trans {s₁ s₂ s₃ : Session} (h : Noted s₁ s₂) (h' : Noted s₂ s₃) : Noted s₁ s₃ where
  settings := h'.settings.trans h.settings
  tables := h'.tables.trans h.tables
  saved := h'.saved.trans h.saved
  graphs := h'.graphs.trans h.graphs
  cache := h'.cache.trans h.cache

theorem noted_records (s : Session) (records : List Log.Record) :
    Noted s { s with records := records } :=
  ⟨rfl, rfl, rfl, rfl, rfl⟩

theorem noted_andThen {α β : Type} (r : Except Failure α × Session)
    (next : α → Session → Except Failure β × Session) (h : ∀ a s, Noted s (next a s).2) :
    Noted r.2 (andThen r next).2 := by
  rcases r with ⟨_ | a, s⟩
  · exact .refl s
  · exact h a s

/-! ### Numbers -/

theorem asked_int (n : ℤ) : asked (.int n) = if fits n then .ok (some n) else .error .range := by
  by_cases h : fits n
  · rw [if_pos h, asked, passed, bound, if_pos h]
    rfl
  · rw [if_neg h, asked, passed, bound, if_neg h]
    rfl

theorem askedKey_int (n : ℤ) : askedKey (.int n) = if fits n then .ok (some n) else .error .range :=
  asked_int n

theorem reference_int (n : ℤ) : reference (.int n) = if fits n then .ok n else .error .range := by
  unfold reference
  rw [asked_int]
  split <;> rfl

theorem newFlag_bool (flag usual : Bool) : newFlag (.bool flag) usual = .ok flag := by
  cases flag <;> rfl

theorem flagOf_bool (flag : Bool) : flagOf (.bool flag) = .ok (some flag) := by
  cases flag <;> rfl

theorem outcome_exists? (has : Tables → ℤ → Bool) (n : ℤ) (s : Session) :
    outcome (exists? has (.int n)) s = (if fits n then .ok (has s.tables n) else .error .range,
      s) := by
  unfold exists?
  rw [askedKey_int]
  split <;> simp

theorem outcome_askedAll_pair (m n : ℤ) (s : Session) : outcome (askedAll [.int m, .int n]) s =
    (if fits m ∧ fits n then .ok (some [m, n]) else .error .range, s) := by
  unfold askedAll askedAll askedAll
  rw [asked_int, asked_int]
  by_cases hm : fits m <;> by_cases hn : fits n <;> simp [hm, hn]

theorem outcome_askedAll_triple (k m n : ℤ) (s : Session) :
    outcome (askedAll [.int k, .int m, .int n]) s =
    (if fits k ∧ fits m ∧ fits n then .ok (some [k, m, n]) else .error .range, s) := by
  unfold askedAll
  rw [asked_int]
  by_cases hk : fits k <;> simp [hk, outcome_askedAll_pair]
  split <;> simp

theorem outcome_findEdge (h l st : ℤ) (s : Session) :
    outcome (findEdge (.int h) (.int l) (.int st)) s =
    (if fits h ∧ fits l ∧ fits st then .ok (s.tables.edge? h l st) else .error .range, s) := by
  unfold findEdge
  rw [outcome_bind, outcome_askedAll_triple]
  split <;> simp

/-! ### Checks -/

/-- The graph of the active edges of a store with one edge more. -/
def joined (t : Tables) (higher lower store : ℤ) : RoleGraph ℤ :=
  (t.graphOf store).addEdge higher lower

theorem cycleProblems_eq_nil {t : Tables} {h l st : ℤ}
    (hnone : cycleProblems t (.int h) (.int l) (some st) = []) :
    (joined t h l st).findCycle = none := by
  unfold cycleProblems closedCycle at hnone
  cases hcycle : (joined t h l st).findCycle with
  | none => rfl
  | some cycle =>
      simp only [joined] at hcycle
      simp [hcycle] at hnone

/-- A check of an edge changes nothing; when it finds no problem, the edge may be added. -/
theorem outcome_edgeProblems (h l st : ℤ) (s : Session) :
    ∃ r, outcome (edgeProblems (.int h) (.int l) (.int st)) s = (r, s) ∧
      (r = .ok [] → (fits h ∧ fits l ∧ fits st) ∧ h ≠ l ∧ s.tables.edge? h l st = none ∧
        (joined s.tables h l st).findCycle = none) := by
  unfold edgeProblems
  simp only [outcome_bind, outcome_exists?]
  by_cases hall : fits h ∧ fits l ∧ fits st
  · obtain ⟨hh, hl, hs⟩ := hall
    simp only [hh, hl, hs, if_true, andThen_ok, Value.alike_int]
    by_cases hne : h = l
    · simp [hne]
    · cases s.tables.hasRole h <;> cases s.tables.hasRole l <;>
        simp [hne, outcome_findEdge, asked_int, hh, hl, hs]
      -- Both roles are there, so a cycle has been looked for.
      exact fun _ hedge hcycle => ⟨hedge, cycleProblems_eq_nil hcycle⟩
  · -- The first number that does not fit stops the check.
    refine ⟨.error .range, ?_, by simp⟩
    by_cases hh : fits h
    · by_cases hl : fits l
      · have hs : ¬ fits st := fun hs => hall ⟨hh, hl, hs⟩
        simp only [if_pos hh, if_pos hl, if_neg hs, andThen_ok, andThen_error]
      · simp only [if_pos hh, if_neg hl, andThen_ok, andThen_error]
    · simp only [if_neg hh, andThen_error]

/-! ### Changes -/

/-- What a call of the hierarchy may do to the tables: one edge of the store is added, removed or
switched.  An edge that is added joins two roles that no edge of the store joins, and no active edge
closes a cycle when it is added or switched on. -/
inductive EdgeChange (store : ℤ) (t : Tables) : Tables → Prop
  | added (row : EdgeRow) (t' : Tables) (hstore : row.store = store) (hne : row.higher ≠ row.lower)
      (hfree : t.edge? row.higher row.lower store = none)
      (hcycle : (joined t row.higher row.lower store).findCycle = none)
      (hinsert : Table.edges.insert t row = .ok t') : EdgeChange store t t'
  | removed (row : EdgeRow) (hmem : row ∈ t.edges) (hstore : row.store = store) :
      EdgeChange store t (Table.edges.drop t row.id)
  | switched (row : EdgeRow) (flag : Bool) (hmem : row ∈ t.edges) (hstore : row.store = store)
      (hcycle : flag = true → (joined t row.higher row.lower store).findCycle = none) :
      EdgeChange store t (Table.edges.replace t { row with isActive := flag })

/-- A change of an edge changes no other table and no other store: rows keep numbers of their own,
and the graphs of the other stores stay as they are. -/
structure EdgeFrame (store : ℤ) (t t' : Tables) : Prop where
  rest : t' = { t with edges := t'.edges }
  keyed : Table.edges.Keyed t'.edges
  graphOf : ∀ other, other ≠ store → t'.graphOf other = t.graphOf other

theorem EdgeChange.frame {store : ℤ} {t t' : Tables} (h : EdgeChange store t t')
    (ht : Table.edges.Keyed t.edges) :
    EdgeFrame store t t' := by
  -- A condition that only edges of another store meet selects the same edges as before.
  have hgraph : ∀ {t'' : Tables}, (∀ p : EdgeRow → Bool, (∀ e, e.store = store → p e = false) →
      t''.edges.filter p = t.edges.filter p) → ∀ other, other ≠ store →
        t''.graphOf other = t.graphOf other := by
    intro t'' hfilter other hother
    rw [Tables.graphOf, Tables.graphOf, Tables.activeEdges, Tables.activeEdges, hfilter]
    intro e he
    have hne : (e.store == other) = false := by simpa [he] using Ne.symm hother
    rw [hne, Bool.false_and]
  cases h with
  | added row _ hstore _ _ _ hinsert =>
      obtain ⟨hadmits, rfl⟩ := Table.insert_eq_ok _ hinsert
      refine ⟨rfl, ht.place fun e he => (Table.ne_of_admits _ hadmits e he).1,
        hgraph fun p hp => ?_⟩
      exact Table.filter_place Table.edges (hp row hstore) t.edges
  | removed row hmem hstore =>
      exact ⟨rfl, ht.filter _, hgraph fun p hp => Table.filter_without ht hmem (hp row hstore)⟩
  | switched row flag hmem hstore _ =>
      let row' : EdgeRow := { row with isActive := flag }
      refine ⟨rfl, ht.swapIn row', hgraph fun p hp => ?_⟩
      exact Table.filter_swapIn ht row' hmem rfl (hp row hstore) (hp row' hstore)

/-- The session after a change of the tables and after what was derived from the hierarchy of
a store is forgotten. -/
def afterEdges (cached : Bool) (store : ℤ) (t : Tables) (s : Session) : Session :=
  (outcome (hierarchyChanged cached (.int store)) { s with tables := t }).2

theorem afterEdges_eq (cached : Bool) (store : ℤ) (t : Tables) (s : Session) : ∃ c records,
    afterEdges cached store t s = { s with
      tables := t, graphs := s.graphs.filter (!·.1.alike (.int store)), cache := c, records :=
  records } ∧
      (cached = false → c = s.cache) := by
  unfold afterEdges hierarchyChanged
  cases cached with
  | false => exact ⟨s.cache, s.records, rfl, fun _ => rfl⟩
  | true =>
      simp only [outcome_bind, outcome_modifyThe, andThen_ok, if_true, outcome_onCache]
      cases (outcome (Cache.bumpStoreEpoch (.int store)) s.cache).1 <;> exact ⟨_, _, rfl, nofun⟩

/-- A call either makes notes only, or changes an edge of the store. -/
def EdgeStep (cached : Bool) (store : ℤ) (s s' : Session) : Prop :=
  Noted s s' ∨ ∃ t, EdgeChange store s.tables t ∧ Noted (afterEdges cached store t s) s'

theorem edge?_eq_some {t : Tables} {h l st : ℤ} {row : EdgeRow} (hrow : t.edge? h l st = some row) :
    row ∈ t.edges ∧ row.higher = h ∧ row.lower = l ∧ row.store = st := by
  have hlinks := List.find?_some hrow
  simp only [EdgeRow.links, Bool.and_eq_true, beq_iff_eq] at hlinks
  exact ⟨List.mem_of_find?_eq_some hrow, hlinks.1.1, hlinks.1.2, hlinks.2⟩

theorem step_addEdge (cached : Bool) (h l st : ℤ) (data : Value) (flag : Bool) (s : Session) :
    EdgeStep cached st s
      (outcome (addEdge cached (.int h) (.int l) (.int st) data (.bool flag)) s).2 := by
  obtain ⟨r, hr, hnone⟩ := outcome_edgeProblems h l st s
  unfold addEdge
  rw [outcome_bind, hr]
  cases r with
  | error e => exact .inl (.refl s)
  | ok problems =>
      cases problems with
      | cons problem problems => exact .inl (noted_records s _)
      | nil =>
          obtain ⟨⟨hh, hl, hs⟩, hne, hedge, hcycle⟩ := hnone rfl
          let row : EdgeRow := ⟨Table.edges.nextId s.tables, h, l, st, asData data, flag⟩
          rw [andThen_ok, if_neg (by decide), newFlag_bool, reference_int, reference_int,
            reference_int, if_pos hh, if_pos hl, if_pos hs, outcome_bind, outcome_lift, andThen_ok,
            outcome_bind, outcome_lift, andThen_ok, outcome_bind, outcome_lift, andThen_ok,
            outcome_bind, outcome_lift, andThen_ok, outcome_bind, outcome_current, andThen_ok]
          dsimp only
          rw [outcome_bind, outcome_lift]
          cases hinsert : Table.edges.insert s.tables row with
          | error e => exact .inl (.refl s)
          | ok t =>
              have hchange : EdgeChange st s.tables t := .added row t rfl hne hedge hcycle hinsert
              rw [andThen_ok, outcome_bind, outcome_setTables, andThen_ok, outcome_bind]
              refine .inr ⟨t, hchange, ?_⟩
              exact noted_andThen _ _ fun _ s => noted_records s _

theorem step_removeEdge (cached : Bool) (h l st : ℤ) (s : Session) :
    EdgeStep cached st s (outcome (removeEdge cached (.int h) (.int l) (.int st)) s).2 := by
  unfold removeEdge
  rw [outcome_bind, outcome_findEdge]
  split
  · cases hrow : s.tables.edge? h l st with
    | none => exact .inl (.refl s)
    | some row =>
        obtain ⟨hmem, -, -, hstore⟩ := edge?_eq_some hrow
        refine .inr ⟨_, .removed row hmem hstore, ?_⟩
        simp only [andThen_ok, outcome_bind, outcome_current, outcome_setTables]
        exact noted_andThen _ _ fun _ s => noted_records s _
  · exact .inl (.refl s)

theorem step_setEdgeActive (cached : Bool) (h l st : ℤ) (flag : Bool) (s : Session) :
    EdgeStep cached st s
      (outcome (setEdgeActive cached (.int h) (.int l) (.int st) (.bool flag)) s).2 := by
  unfold setEdgeActive
  rw [outcome_bind, outcome_findEdge]
  split
  · cases hrow : s.tables.edge? h l st with
    | none => exact .inl (.refl s)
    | some row =>
        obtain ⟨hmem, hh, hl, hstore⟩ := edge?_eq_some hrow
        simp only [andThen_ok]
        split
        · exact .inl (.refl s)
        · simp only [outcome_bind, outcome_current, andThen_ok]
          cases hproblems : if (Value.bool flag).isTruthy then
              cycleProblems s.tables (.int h) (.int l) (some row.store) else [] with
          | cons problem problems => exact .inl (noted_records s _)
          | nil =>
              refine .inr ⟨_, .switched row flag hmem hstore fun hflag => ?_, ?_⟩
              · subst hflag hh hl hstore
                exact cycleProblems_eq_nil hproblems
              · simp only [List.isEmpty_nil, Bool.not_true, Bool.false_eq_true, if_false,
                  flagOf_bool, outcome_bind, outcome_lift, andThen_ok, outcome_setTables]
                exact noted_andThen _ _ fun _ s => .refl s
  · exact .inl (.refl s)

/-! ### Calls -/

/-- A call of the hierarchy: the roles and the store are given by numbers. -/
inductive HierarchyCall where
  | add (higher lower store : ℤ) (data : Value) (isActive : Bool)
  | remove (higher lower store : ℤ)
  | activate (higher lower store : ℤ) (isActive : Bool)

/-- The store of a call. -/
def HierarchyCall.store : HierarchyCall → ℤ
  | add _ _ store _ _ => store
  | remove _ _ store => store
  | activate _ _ store _ => store

/-- The session after a call, accepted or not. -/
def afterHierarchyCall (cached : Bool) (call : HierarchyCall) (s : Session) : Session :=
  match call with
  | .add higher lower store data isActive =>
    (outcome (addEdge cached (.int higher) (.int lower) (.int store) data (.bool isActive)) s).2
  | .remove higher lower store =>
      (outcome (removeEdge cached (.int higher) (.int lower) (.int store)) s).2
  | .activate higher lower store isActive =>
    (outcome (setEdgeActive cached (.int higher) (.int lower) (.int store) (.bool isActive)) s).2

/-- A call changes one edge of its store at most. -/
theorem step_hierarchyCall (cached : Bool) (call : HierarchyCall) (s : Session) :
    EdgeStep cached call.store s (afterHierarchyCall cached call s) := by
  cases call with
  | add higher lower store data isActive =>
      exact step_addEdge cached higher lower store data isActive s
  | remove higher lower store => exact step_removeEdge cached higher lower store s
  | activate higher lower store isActive =>
      exact step_setEdgeActive cached higher lower store isActive s

end Session
end AccessControl
