import AccessControl.Proofs.Session.Queries
import Mathlib

/-! # Remembered permissions are the present ones

Every change of the hierarchy and of the assignments keeps a session coherent
(`coherent_edgeStep`, `coherent_assignmentStep`): the graph of the store and the permissions there
are forgotten by a new epoch, and what was remembered of a user in a store is deleted.  So,
whatever was asked and changed before and however much time went by, the cache answers as the
tables of the moment say (`permissions_run`). -/

namespace AccessControl
namespace Session

open Cache Database

variable {shared : Bool} {left : ℕ} {s s' : Session} {m m' : View} {α β : Type}

/-! ### Changes -/

/-- The second session comes after the first one by queries and by changes of the hierarchy
and of the assignments. -/
structure Later (s s' : Session) : Prop where
  settings : s'.settings = s.settings
  tables :
      s'.tables = { s.tables with assignments := s'.tables.assignments, edges := s'.tables.edges }
  cache : Steady s.cache s'.cache

theorem Later.refl (s : Session) : Later s s := ⟨rfl, rfl, .refl _⟩

theorem Later.trans {s₁ s₂ s₃ : Session} (h : Later s₁ s₂) (h' : Later s₂ s₃) : Later s₁ s₃ where
  settings := h'.settings.trans h.settings
  tables := by rw [h'.tables, h.tables]
  cache := h.cache.trans h'.cache

theorem Kept.later (h : Kept s s') : Later s s' := ⟨h.settings, by rw [h.tables], h.cache⟩

theorem Noted.later (h : Noted s s') : Later s s' :=
  ⟨h.settings, by rw [h.tables], h.cache ▸ .refl _⟩

/-- A later session that is coherent and shows the same but for what is derived. -/
def Follows (shared : Bool) (left : ℕ) (s : Session) (m : View) (s' : Session) : Prop :=
  Later s s' ∧ ∃ m', Unmoved s.cache.space m m' ∧ Coherent shared left s' m'

theorem Follows.noted {s₁ s₂ : Session} (h : Follows shared left s m s₁) (hnoted : Noted s₁ s₂) :
    Follows shared left s m s₂ := by
  obtain ⟨hlater, m', hmoved, hcoherent⟩ := h
  exact ⟨hlater.trans hnoted.later, m', hmoved, hcoherent.noted hnoted⟩

/-- Raising the epoch of a store raises its counter by one. -/
theorem yields_bumpStoreEpoch {c : Cache} (h : Represents shared c m) (st : ℤ)
    (hcounter : ∀ p, m ((Key.epoch st).text c.space) = some p → ∃ n, p = (.int n, none))
    (hroom : ∀ n, Stands c m ((Key.epoch st).text c.space) n → Room shared (left + 1) n)
    (hseeds : ∀ n, IsSeed c n → Countable shared n) :
    ∃ n, Stands c m ((Key.epoch st).text c.space) n ∧
      Yields shared (bumpStoreEpoch (.int st)) c (n + 1)
      (m.set ((Key.epoch st).text c.space) (.int (n + 1)) none) := by
  obtain ⟨n, hstands, hbump⟩ := bumpCounter_spec h hcounter hseeds
    fun n hn => ⟨(hroom n hn).countable, (hroom n hn).next.countable⟩
  refine ⟨n, hstands, ?_⟩
  unfold bumpStoreEpoch
  refine yields_after (outcome_get c) (.refl _) ?_
  rw [Key.text_epoch]
  refine yields_bind hbump fun c₁ _ h₁ => ?_
  exact yields_bind (yields_note h₁ _ _ _ _) fun c₂ _ h₂ => yields_pure h₂ _

/-- In a coherent session, the raised epoch has room. -/
theorem bumpStoreEpoch_spec (h : Coherent shared (left + 1) s m) (st : ℤ) :
    ∃ n, (m ((Key.epoch st).text s.cache.space) = some (.int n, none) ∨
      m ((Key.epoch st).text s.cache.space) = none) ∧
      Room shared left (n + 1) ∧ Yields shared (bumpStoreEpoch (.int st)) s.cache (n + 1)
        (m.set ((Key.epoch st).text s.cache.space) (.int (n + 1)) none) := by
  have hcounter : ∀ p, m ((Key.epoch st).text s.cache.space) = some p → ∃ n, p = (.int n, none) :=
    fun p hp => by
    obtain ⟨n, rfl, -⟩ := h.tells.epochs st p hp
    exact ⟨n, rfl⟩
  have hroom : ∀ n, Stands s.cache m ((Key.epoch st).text s.cache.space) n →
      Room shared (left + 1) n := by
    rintro n (hn | ⟨-, hseed⟩)
    · obtain ⟨k, hk, hroom⟩ := h.tells.epochs st _ hn
      obtain rfl : n = k := by simpa using hk
      exact hroom
    · exact h.seeds n hseed
  obtain ⟨n, hstands, hbump⟩ :=
    yields_bumpStoreEpoch h.represents st hcounter hroom fun n hn => (h.seeds n hn).countable
  exact ⟨n, hstands.imp_right And.left, (hroom n hstands).next, hbump⟩

/-- After a change of the hierarchy of a store, its graph is forgotten, and its epoch is raised. -/
theorem coherent_afterEdges (h : Coherent shared (left + 1) s m) {st : ℤ} {t : Tables}
    (hchange : EdgeChange st s.tables t) : ∃ n,
    (m ((Key.epoch st).text s.cache.space) = some (.int n, none) ∨
      m ((Key.epoch st).text s.cache.space) = none) ∧
      Later s (afterEdges true st t s) ∧
      Coherent shared left (afterEdges true st t s)
        (m.set ((Key.epoch st).text s.cache.space) (.int (n + 1)) none) := by
  have hframe := hchange.frame h.edges
  obtain ⟨n, hepoch, hroom, c, hrun, hsteady, hrep⟩ := bumpStoreEpoch_spec h st
  have hafter : afterEdges true st t s =
      ({ s with tables := t, graphs := s.graphs.filter (!·.1.alike (.int st)) } : Session).withCache
        c := by
    unfold afterEdges hierarchyChanged
    simp only [outcome_bind, outcome_modifyThe, andThen_ok, if_true, outcome_onCache, hrun]
    rfl
  rw [hafter]
  have hlater : t = { s.tables with assignments := t.assignments, edges := t.edges } := by
    rw [hframe.rest]
  refine ⟨n, hepoch, ⟨rfl, hlater, hsteady.clock, hsteady.space, hsteady.seeds⟩, ?_⟩
  refine ⟨hrep, fun k hk => (h.seeds k (hsteady.isSeed hk)).fewer, fun g hg => ?_, hframe.keyed, ?_,
    ?_⟩
  · obtain ⟨hmem, hother⟩ := List.mem_filter.mp hg
    obtain ⟨st', hfits, rfl⟩ := h.graphs g hmem
    have hne : st' ≠ st := by simpa [Value.alike_int] using hother
    exact ⟨st', hfits, by rw [← hframe.graphOf st' hne]; rfl⟩
  · have hsame : t.assignments = s.tables.assignments := by rw [hframe.rest]
    exact hsame ▸ h.assignments
  · have htells := h.tells.edges hframe hepoch (fun k hk => hk.fewer) hroom
    rw [show ∀ s' : Session, (s'.withCache c).cache.space = s.cache.space from fun _ =>
      hsteady.space]
    exact htells

theorem follows_afterEdges (h : Coherent shared (left + 1) s m) {st : ℤ} {t : Tables}
    (hchange : EdgeChange st s.tables t) : Follows shared left s m (afterEdges true st t s) := by
  obtain ⟨n, -, hlater, hcoherent⟩ := coherent_afterEdges h hchange
  exact ⟨hlater, _, unmoved_set (k := .epoch st) rfl m (.int (n + 1)) none, hcoherent⟩

/-- A step of the hierarchy keeps a session coherent; it may take up the room of one counter. -/
theorem coherent_edgeStep (h : Coherent shared (left + 1) s m) {st : ℤ}
    (hstep : EdgeStep true st s s') :
    Follows shared left s m s' := by
  rcases hstep with hnoted | ⟨t, hchange, hnoted⟩
  · exact ⟨hnoted.later, m, .refl _ m, (h.noted hnoted).fewer⟩
  · exact (follows_afterEdges h hchange).noted hnoted

theorem yields_invalidateUserStore {c : Cache} {u st n : ℤ}
    (h : Yields shared (currentPermissionsKey (.int u) (.int st)) c
      ((Key.permissions u st n).text c.space) m) :
    Yields shared (invalidateUserStore (.int u) (.int st)) c ()
      (m.without ([Key.permissions u st n, Key.allStores u].map (Key.text c.space))) := by
  unfold invalidateUserStore
  refine yields_bind h fun c₁ hsteady h₁ => ?_
  have hall := currentAllStoresKey_spec h₁ u
  rw [hsteady.space] at hall
  refine yields_bind hall fun c₂ _ h₂ => ?_
  have hdelete :=
    delete_spec h₂ [(Key.permissions u st n).text c.space, (Key.allStores u).text c.space]
  exact yields_bind hdelete fun c₃ _ h₃ => yields_pure h₃ ()

theorem forgetUser_spec (h : Coherent shared left s m) (u st : ℤ) :
    ∃ n, let m₁ := m.set ((Key.epoch st).text s.cache.space) (.int n) none
      Tells s.tables s.settings.hierarchyMaxDepth s.cache.space (Room shared left) m₁ ∧
      Yields shared (invalidateUserStore (.int u) (.int st)) s.cache ()
        (m₁.without ([Key.permissions u st n, Key.allStores u].map (Key.text s.cache.space))) := by
  obtain ⟨n, hkey, htells⟩ := currentPermissionsKey_spec h u st
  exact ⟨n, htells, yields_invalidateUserStore hkey⟩

/-- After a change of the assignments of a user in a store, what was remembered of the
user there is forgotten. -/
theorem follows_afterAssignments (h : Coherent shared left s m) {u st : ℤ} {t : Tables}
    (hchange : AssignmentChange u st s.tables t) :
    Follows shared left s m (afterAssignments true u st t s) := by
  have hframe := hchange.frame h.assignments
  obtain ⟨n, htells, c, hrun, hsteady, hrep⟩ := forgetUser_spec h u st
  have hafter :
      afterAssignments true u st t s = ({ s with tables := t } : Session).withCache c := by
    unfold afterAssignments forgetUser
    simp only [if_true, outcome_onCache, hrun]
    rfl
  have hderived : ∀ k ∈ [Key.permissions u st n, Key.allStores u], k.isDerived = true := by
    simp [Key.isDerived]
  rw [hafter]
  have hlater : t = { s.tables with assignments := t.assignments, edges := t.edges } := by
    rw [hframe.rest]
  refine ⟨⟨rfl, hlater, hsteady.clock, hsteady.space, hsteady.seeds⟩, _,
    (unmoved_set (k := .epoch st) rfl m (.int n) none).trans (unmoved_without hderived _), ?_⟩
  have hsame : t.edges = s.tables.edges := by rw [hframe.rest]
  refine ⟨hrep, fun k hk => h.seeds k (hsteady.isSeed hk), fun g hg => ?_, hsame ▸ h.edges,
    hframe.keyed, ?_⟩
  · obtain ⟨st', hfits, rfl⟩ := h.graphs g hg
    refine ⟨st', hfits, ?_⟩
    rw [Tables.graphOf, Tables.graphOf, Tables.activeEdges, Tables.activeEdges, ← hsame]
    rfl
  · rw [show ∀ s' : Session, (s'.withCache c).cache.space = s.cache.space from fun _ =>
      hsteady.space]
    exact htells.assignments hframe (View.set_same ..)

theorem coherent_assignmentStep (h : Coherent shared left s m) {u st : ℤ}
    (hstep : AssignmentStep true u st s s') :
    Follows shared left s m s' := by
  rcases hstep with hnoted | ⟨t, hchange, hnoted⟩
  · exact ⟨hnoted.later, m, .refl _ m, h.noted hnoted⟩
  · exact (follows_afterAssignments h hchange).noted hnoted

theorem coherent_assignmentSteps (h : Coherent shared left s m) {u : ℤ}
    (hsteps : AssignmentSteps true u s s') :
    Follows shared left s m s' := by
  induction hsteps with
  | refl => exact ⟨.refl s, m, .refl _ m, h⟩
  | tail _ hstep ih =>
      obtain ⟨st, hstep⟩ := hstep
      obtain ⟨hlater, m₁, hmoved, h₁⟩ := ih
      obtain ⟨hlater', m₂, hmoved', h₂⟩ := coherent_assignmentStep h₁ hstep
      rw [hlater.cache.space] at hmoved'
      exact ⟨hlater.trans hlater', m₂, hmoved.trans hmoved', h₂⟩

/-! ### Time -/

/-- The session some seconds later. -/
def advance (s : Session) (seconds : ℕ) : Session :=
  { s with cache := { s.cache with clock := s.cache.clock + seconds } }

theorem coherent_advance (h : Coherent shared left s m) (seconds : ℕ) :
    Coherent shared left (s.advance seconds) (m.fade (s.cache.clock + seconds)) where
  represents := represents_advance h.represents (Int.natCast_nonneg seconds)
  seeds := h.seeds
  graphs := h.graphs
  edges := h.edges
  assignments := h.assignments
  tells := h.tells.fade _

/-! ### Queries -/

/-- An operation that gives some result or failure, and leads to a coherent session
over the same tables. -/
def Keeps (operation : SessionM α) : Prop := ∀ ⦃shared : Bool⦄ ⦃left : ℕ⦄ ⦃s : Session⦄ ⦃m : View⦄,
  Coherent shared left s m → ∃ r m', Unmoved s.cache.space m m' ∧
    Answers shared left operation s r m'

theorem keeps_pure (a : α) : Keeps (pure a : SessionM α) :=
  fun _ _ _ _ h => ⟨_, _, .refl _ _, answers_pure h a⟩

theorem keeps_current : Keeps current :=
  fun _ _ _ _ h => ⟨_, _, .refl _ _, answers_outcome h (outcome_current _)⟩

theorem keeps_bind {x : SessionM α} {f : α → SessionM β} (hx : Keeps x) (hf : ∀ a, Keeps (f a)) :
    Keeps (x >>= f) := by
  intro shared left s m h
  obtain ⟨r, m₁, hmoved, s₁, hrun, hkept, h₁⟩ := hx h
  cases r with
  | error e => exact ⟨.error e, m₁, hmoved, answers_bind_error ⟨s₁, hrun, hkept, h₁⟩⟩
  | ok a =>
      obtain ⟨r, m₂, hmoved', s₂, hrun', hkept', h₂⟩ := hf a h₁
      rw [hkept.cache.space] at hmoved'
      exact ⟨r, m₂, hmoved.trans hmoved',
        s₂, by rw [outcome_bind, hrun, andThen_ok, hrun'], hkept.trans hkept', h₂⟩

theorem keeps_lowerRoleIds (role st : ℤ) : Keeps (lowerRoleIds (.int role) (.int st)) :=
  fun _ _ _ _ h => ⟨_, _, .refl _ _, answers_lowerRoleIds h role st⟩

theorem keeps_effectiveRoleIds (u st : ℤ) : Keeps (effectiveRoleIds (.int u) (.int st)) :=
  fun _ _ _ _ h => ⟨_, _, .refl _ _, answers_effectiveRoleIds h u st⟩

theorem keeps_managesAny (st : ℤ) (others roles : List ℤ) :
    Keeps (managesAny (.int st) others roles) := by
  induction roles with
  | nil => exact keeps_pure false
  | cons role roles ih =>
      unfold managesAny
      refine keeps_bind (keeps_lowerRoleIds role st) fun below => ?_
      split
      · exact keeps_pure true
      · exact ih

/-- A question about permissions, stores or roles. -/
inductive Query where
  | permissions (user store : ℤ)
  | hasPermission (user : ℤ) (name : String) (store : ℤ)
  | hasAllStores (user : ℤ)
  | lowerRoles (role store : ℤ)
  | isHigher (role other store : ℤ)
  | tree (store : ℤ)
  | effectiveRoles (user store : ℤ)
  | canAct (actor target store : ℤ)

/-- The session after a question is put to it and its cache. -/
def afterQuery (s : Session) : Query → Session
  | .permissions user store => (outcome (effectivePermissions true (.int user) (.int store)) s).2
  | .hasPermission user name store =>
      (outcome (hasPermission true (.int user) (.text name) (.int store)) s).2
  | .hasAllStores user => (outcome (hasAllStores true (.int user)) s).2
  | .lowerRoles role store => (outcome (lowerRoles (.int role) (.int store)) s).2
  | .isHigher role other store => (outcome (isHigher (.int role) (.int other) (.int store)) s).2
  | .tree store => (outcome (hierarchyTree (.int store)) s).2
  | .effectiveRoles user store => (outcome (effectiveRoles (.int user) (.int store)) s).2
  | .canAct actor target store => (outcome (canAct (.int actor) (.int target) (.int store)) s).2

theorem Keeps.follows {operation : SessionM α} (hop : Keeps operation)
    (h : Coherent shared left s m) :
    Follows shared left s m (outcome operation s).2 := by
  obtain ⟨r, m', hmoved, s', hrun, hkept, h'⟩ := hop h
  rw [hrun]
  exact ⟨hkept.later, m', hmoved, h'⟩

theorem coherent_query (h : Coherent shared left s m) (query : Query) :
    Follows shared left s m (s.afterQuery query) := by
  cases query with
  | permissions user store =>
      exact Keeps.follows (fun _ _ _ _ h =>
        ⟨_, (answers_effectivePermissions h user store).imp fun _ => .imp_left Differ.ofStore⟩) h
  | hasPermission user name store =>
      exact Keeps.follows (fun _ _ _ _ h =>
        ⟨_, (answers_hasPermission h user store name).imp fun _ => .imp_left Differ.ofStore⟩) h
  | hasAllStores user =>
      exact Keeps.follows (fun _ _ _ _ h =>
        ⟨_, (answers_hasAllStores h user).imp fun _ => .imp_left Differ.ofAllStores⟩) h
  | lowerRoles role store =>
      exact (keeps_bind (keeps_lowerRoleIds role store) fun ids => keeps_bind keeps_current fun _ =>
        keeps_pure _).follows h
  | isHigher role other store =>
      exact (keeps_bind (keeps_lowerRoleIds role store) fun ids => keeps_pure _).follows h
  | tree store =>
      have hgraph : Keeps (graph (.int store)) :=
        fun _ _ _ _ h => ⟨_, _, .refl _ _, answers_graph h store⟩
      exact (keeps_bind hgraph fun g => keeps_bind keeps_current fun _ => keeps_pure _).follows h
  | effectiveRoles user store =>
      exact (keeps_bind (keeps_effectiveRoleIds user store) fun ids =>
        keeps_bind keeps_current fun _ => keeps_pure _).follows h
  | canAct actor target store =>
      refine Keeps.follows (keeps_bind (keeps_effectiveRoleIds actor store) fun mine => ?_) h
      refine keeps_bind (keeps_effectiveRoleIds target store) fun others => ?_
      dsimp only
      split
      · exact keeps_pure false
      · exact keeps_managesAny store _ _

/-! ### Runs -/

/-- Something that happens to a session with a cache: a call, a question, or time that goes by. -/
inductive Event where
  | hierarchy (call : HierarchyCall)
  | assignment (call : AssignmentCall)
  | query (query : Query)
  | advance (seconds : ℕ)
  | commit

/-- The session after an event. -/
def afterEvent (s : Session) : Event → Session
  | .hierarchy call => afterHierarchyCall true call s
  | .assignment call => afterAssignmentCall true call s
  | .query query => s.afterQuery query
  | .advance seconds => s.advance seconds
  | .commit => s.commit

/-- A session that has kept nothing, over any tables whose rows have numbers of their own, with an
empty cache that has room for so many steps: in memory, or a string store that answers. -/
structure Fresh (shared : Bool) (steps : ℕ) (s : Session) : Prop where
  cache : Represents shared s.cache fun _ => none
  seeds : ∀ n, IsSeed s.cache n → Room shared steps n
  graphs : s.graphs = []
  edges : Table.edges.Keyed s.tables.edges
  assignments : Table.assignments.Keyed s.tables.assignments

theorem fresh_memory (hcache : s.cache.backend = .memory []) (hgraphs : s.graphs = [])
    (hedges : Table.edges.Keyed s.tables.edges)
    (hassignments : Table.assignments.Keyed s.tables.assignments) (steps : ℕ) :
    s.Fresh false steps := by
  refine ⟨?_, fun n _ => room_memory steps n, hgraphs, hedges, hassignments⟩
  unfold Represents
  rw [hcache]
  exact ⟨rfl, List.nodup_nil, fun _ => rfl⟩

theorem coherent_fresh {steps : ℕ} (h : Fresh shared steps s) :
    Coherent shared steps s fun _ => none where
  represents := h.cache
  seeds := h.seeds
  graphs g hg := by simp [h.graphs] at hg
  edges := h.edges
  assignments := h.assignments
  tells := .empty fun _ => rfl

/-- The second session comes after the first one by time that goes by, and by what
rules do not depend on. -/
structure Passes (s : Session) (m : View) (s' : Session) (m' : View) : Prop where
  settings : s'.settings = s.settings
  rules : s'.tables.rules = s.tables.rules
  space : s'.cache.space = s.cache.space
  clock : s.cache.clock ≤ s'.cache.clock
  fades : Fades s.cache.space m m'

theorem Follows.passes (h : Follows shared left s m s') :
    ∃ m', Coherent shared left s' m' ∧ Passes s m s' m' := by
  obtain ⟨hlater, m', hmoved, h'⟩ := h
  refine ⟨m', h', hlater.settings, ?_, hlater.cache.space, hlater.cache.clock.ge, hmoved.fades⟩
  rw [hlater.tables]

theorem coherent_event (h : Coherent shared (left + 1) s m) (event : Event) :
    ∃ m', Coherent shared left (s.afterEvent event) m' ∧ Passes s m (s.afterEvent event) m' := by
  cases event with
  | hierarchy call => exact (coherent_edgeStep h (step_hierarchyCall true call s)).passes
  | assignment call =>
      exact (coherent_assignmentSteps h.fewer (steps_assignmentCall true call s)).passes
  | query query => exact (coherent_query h.fewer query).passes
  | advance seconds =>
      have hclock : s.cache.clock ≤ s.cache.clock + seconds := by omega
      exact ⟨_, coherent_advance h.fewer seconds, rfl, rfl, rfl, hclock, fades_fade m _⟩
  | commit => exact ⟨m, { h.fewer with }, rfl, rfl, rfl, le_rfl, (Unmoved.refl _ m).fades⟩

theorem coherent_run (events : List Event) (h : Coherent shared events.length s m) :
    ∃ m', Coherent shared 0 (events.foldl afterEvent s) m' ∧
      (events.foldl afterEvent s).settings = s.settings := by
  induction events generalizing s m with
  | nil => exact ⟨m, h, rfl⟩
  | cons event events ih =>
      obtain ⟨m₁, h₁, hpasses⟩ := coherent_event h event
      obtain ⟨m₂, h₂, hsettings⟩ := ih h₁
      exact ⟨m₂, h₂, hsettings.trans hpasses.settings⟩

/-- After any run, the permissions that a user is given in a store with the cache are those attached
to an active direct role of the user there or to a role that a path of active edges, not longer than
the settings say, leads to from one. And with the cache, a user is said to have all stores when
every active store has an active assignment of the user. -/
theorem permissions_run (s : Session) (events : List Event) (hs : s.Fresh shared events.length) :
    let s' := events.foldl afterEvent s
    (∀ u st, fits u → fits st →
      ∃ names, (outcome (effectivePermissions true (.int u) (.int st)) s').1 = .ok names ∧
      ∀ name, name ∈ names ↔ s'.tables.Grants s.settings.hierarchyMaxDepth.toNat u st name) ∧
    (∀ u, fits u → ∃ answer, (outcome (hasAllStores true (.int u)) s').1 = .ok answer ∧
      (answer = true ↔ ∀ st ∈ s'.tables.stores, st.isActive = true →
        ∃ a ∈ s'.tables.assignments, a.user = u ∧ a.isActive = true ∧ a.store = st.id)) := by
  intro s'
  obtain ⟨m, h, hsettings⟩ := coherent_run events (coherent_fresh hs)
  refine ⟨fun u st hu hst => ?_, fun u hu => ?_⟩
  · obtain ⟨-, -, s₁, hrun, -⟩ := answers_effectivePermissions h u st
    rw [if_pos ⟨hu, hst⟩] at hrun
    refine ⟨_, congrArg Prod.fst hrun, fun name => ?_⟩
    rw [permissionsOf, hsettings, Tables.mem_permissionsIn]
  · obtain ⟨-, -, s₁, hrun, -⟩ := answers_hasAllStores h u
    rw [if_pos (.inl hu)] at hrun
    exact ⟨_, congrArg Prod.fst hrun, Tables.coversStores_iff⟩

/-- A store, with a user and two roles; one of them may read orders. -/
def oneStore : Session :=
  let tables : Tables :=
    { Tables.empty with
      users := [⟨1, "ann", "ann@shop", true⟩]
      roles := [⟨1, "head", none⟩, ⟨2, "staff", none⟩]
      permissions := [⟨1, "orders.read", none⟩]
      rolePermissions := [(2, 1)]
      stores := [⟨1, "A", "Store A", .null, true⟩] }
  { Session.start .standard ⟨.memory [], "authz", 0, [1], []⟩ with
    tables := tables, saved := tables }

/-- The user comes to head the store, is asked about, and only then is the head above the staff. -/
def staffing : List Event :=
  [.assignment (.assign 1 1 1 .null true), .query (.permissions 1 1),
   .hierarchy (.add 1 2 1 .null true), .advance 5, .assignment (.toggle 1 1 1)]

theorem permissions_run_oneStore : oneStore.Fresh false staffing.length ∧ ∃ names,
    (outcome (effectivePermissions true (.int 1) (.int 1)) (staffing.foldl afterEvent oneStore)).1 =
      .ok names ∧
      ∀ name, name ∈ names ↔ (staffing.foldl afterEvent oneStore).tables.Grants 16 1 1 name := by
  have hfresh : oneStore.Fresh false staffing.length :=
    fresh_memory (s := oneStore) rfl rfl List.nodup_nil List.nodup_nil _
  exact ⟨hfresh, (permissions_run oneStore staffing hfresh).1 1 1 (by decide) (by decide)⟩

end Session
end AccessControl
