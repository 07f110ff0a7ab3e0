import AccessControl.Proofs.Session.Peers
import Mathlib

/-! # Changes of a hierarchy that are given up

When a session gives its changes up, the edges become what they were saved as.  The graphs that it
keeps, the epochs and what is remembered under them stay: a store that was asked about after a
change is answered for from the edges that were given up (`answered_from_givenUp`).  If every store
has its saved graph back by then, or has not been asked about since its hierarchy was changed last,
all questions are answered from the saved edges afterwards, with and without a cache
(`answers_after_rollback`).

The reason is that a change forgets the graph of its store and, with a cache, leaves nothing under
the epoch that it raises (`Forgotten`); what is done with other stores does not alter that. -/

namespace AccessControl
namespace Session

open Cache Database

variable {shared : Bool} {left : ℕ} {st : ℤ} {s s' : Session} {m m' : View} {α β : Type}

/-! ### Acts -/

/-- The store that a question is about; a question about all stores is about none of them. -/
def Query.store? : Query → Option ℤ
  | .permissions _ store => some store
  | .hasPermission _ _ store => some store
  | .hasAllStores _ => none
  | .lowerRoles _ store => some store
  | .isHigher _ _ store => some store
  | .tree store => some store
  | .effectiveRoles _ store => some store
  | .canAct _ _ store => some store

/-- The session after a question is put to it, and to its cache when it has one. -/
def afterAsking (cached : Bool) (s : Session) : Query → Session
  | .permissions user store => (outcome (effectivePermissions cached (.int user) (.int store)) s).2
  | .hasPermission user name store =>
      (outcome (hasPermission cached (.int user) (.text name) (.int store)) s).2
  | .hasAllStores user => (outcome (hasAllStores cached (.int user)) s).2
  | query => s.afterQuery query

/-- Something that is done with a session, or time that goes by. -/
inductive Act where
  | change (call : HierarchyCall)
  | ask (query : Query)
  | advance (seconds : ℕ)
  | commit

/-- The session after an act. -/
def afterAct (cached : Bool) (s : Session) : Act → Session
  | .change call => afterHierarchyCall cached call s
  | .ask query => s.afterAsking cached query
  | .advance seconds => s.advance seconds
  | .commit => s.commit

/-- The session after some acts. -/
def afterActs (cached : Bool) (s : Session) (acts : List Act) : Session :=
  acts.foldl (afterAct cached) s

/-- The hierarchy of a store is changed, and the store is not asked about after that. -/
def LeftAlone (cached : Bool) (s : Session) (acts : List Act) (st : ℤ) : Prop :=
  ∃ before call after, acts = before ++ .change call :: after ∧ call.store = st ∧
    (s.afterActs cached (before ++ [.change call])).tables ≠ (s.afterActs cached before).tables ∧
    ∀ query, .ask query ∈ after → query.store? ≠ some st

/-- At the end of some acts every store has its saved graph, or has not been asked about
since its last change. -/
def CarefulActs (cached : Bool) (s : Session) (acts : List Act) : Prop := ∀ st,
  (s.afterActs cached acts).tables.graphOf st = (s.afterActs cached acts).saved.graphOf st ∨
    s.LeftAlone cached acts st

/-! ### Graphs that are kept -/

variable {about : Option ℤ}

/-- An operation keeps no graph that was not kept before, but for one of the store that it is
about. -/
def DrawsOnly (about : Option ℤ) (operation : SessionM α) : Prop :=
  ∀ s, ∀ g ∈ (outcome operation s).2.graphs, g ∈ s.graphs ∨ about.map Value.int = some g.1

theorem drawsOnly_outcome {operation : SessionM α}
    (h : ∀ s, (outcome operation s).2.graphs = s.graphs) :
    DrawsOnly about operation := fun s _ hg => .inl (h s ▸ hg)

theorem drawsOnly_pure (a : α) : DrawsOnly about (pure a : SessionM α) :=
  drawsOnly_outcome fun _ => rfl

theorem drawsOnly_lift (x : Except Failure α) : DrawsOnly about (liftM x : SessionM α) :=
  drawsOnly_outcome fun _ => rfl

theorem drawsOnly_current : DrawsOnly about current := drawsOnly_outcome fun _ => rfl

theorem drawsOnly_onCache (operation : CacheM α) : DrawsOnly about (liftM operation : SessionM α) :=
  drawsOnly_outcome fun s => by rw [outcome_onCache]

theorem drawsOnly_bind {x : SessionM α} {f : α → SessionM β} (hx : DrawsOnly about x)
    (hf : ∀ a, DrawsOnly about (f a)) :
    DrawsOnly about (x >>= f) := by
  intro s g
  have hfirst := hx s
  rw [outcome_bind]
  revert hfirst
  rcases outcome x s with ⟨_ | a, s₁⟩
  · exact fun hfirst => hfirst g
  · exact fun hfirst hg => (hf a s₁ g hg).elim (hfirst g) .inr

theorem drawsOnly_getOrCompute (key : String) (ttl : Option ℤ) (label : String)
    {compute : SessionM Value} (h : DrawsOnly about compute) :
    DrawsOnly about (getOrCompute key ttl label compute) := by
  refine drawsOnly_bind (drawsOnly_onCache _) fun found => ?_
  split
  · exact drawsOnly_pure _
  · exact drawsOnly_bind h fun value => drawsOnly_bind (drawsOnly_onCache _) fun _ =>
      drawsOnly_pure _

theorem drawsOnly_askedAll (values : List Value) : DrawsOnly about (askedAll values) := by
  induction values with
  | nil => exact drawsOnly_pure _
  | cons v vs ih =>
      exact drawsOnly_bind (drawsOnly_lift _) fun _ => drawsOnly_bind ih fun _ => drawsOnly_pure _

theorem drawsOnly_graph : DrawsOnly (some st) (graph (.int st)) := by
  refine drawsOnly_bind drawsOnly_current fun s => ?_
  split
  · exact drawsOnly_pure _
  · refine drawsOnly_bind (drawsOnly_lift _) fun n => ?_
    refine drawsOnly_bind (fun s g hg => ?_) fun _ => drawsOnly_pure _
    rcases List.mem_cons.mp hg with rfl | hg
    · exact .inr rfl
    · exact .inl hg

theorem drawsOnly_lowerRoleIds (role : ℤ) :
    DrawsOnly (some st) (lowerRoleIds (.int role) (.int st)) :=
  drawsOnly_bind drawsOnly_graph fun _ => drawsOnly_bind drawsOnly_current fun _ => drawsOnly_pure _

theorem drawsOnly_rolesBelow (roles : List ℤ) :
    DrawsOnly (some st) (rolesBelow (.int st) roles) := by
  induction roles with
  | nil => exact drawsOnly_pure _
  | cons role roles ih =>
    exact drawsOnly_bind (drawsOnly_lowerRoleIds role) fun _ => drawsOnly_bind ih fun _ =>
      drawsOnly_pure _

theorem drawsOnly_effectiveRoleIds (user : ℤ) :
    DrawsOnly (some st) (effectiveRoleIds (.int user) (.int st)) := by
  refine drawsOnly_bind (drawsOnly_bind (drawsOnly_askedAll _) fun ids => ?_) fun direct =>
    drawsOnly_bind (drawsOnly_rolesBelow direct) fun _ => drawsOnly_pure _
  split
  · exact drawsOnly_bind drawsOnly_current fun _ => drawsOnly_pure _
  · exact drawsOnly_pure _

theorem drawsOnly_managesAny (others roles : List ℤ) :
    DrawsOnly (some st) (managesAny (.int st) others roles) := by
  induction roles with
  | nil => exact drawsOnly_pure _
  | cons role roles ih =>
    refine drawsOnly_bind (drawsOnly_lowerRoleIds role) fun below => ?_
    split
    · exact drawsOnly_pure _
    · exact ih

theorem drawsOnly_permissionMembers (cached : Bool) (user : ℤ) :
    DrawsOnly (some st) (permissionMembers cached (.int user) (.int st)) := by
  have hwork : DrawsOnly (some st) (workOutPermissions (.int user) (.int st)) :=
    drawsOnly_bind (drawsOnly_effectiveRoleIds user) fun _ =>
      drawsOnly_bind drawsOnly_current fun _ => drawsOnly_pure _
  unfold permissionMembers
  split
  · refine drawsOnly_bind (drawsOnly_onCache _) fun key => drawsOnly_bind drawsOnly_current fun s =>
      ?_
    refine drawsOnly_bind (drawsOnly_getOrCompute _ _ _ ?_) fun names => drawsOnly_lift _
    exact drawsOnly_bind hwork fun _ => drawsOnly_pure _
  · exact drawsOnly_bind hwork fun _ => drawsOnly_pure _

theorem drawsOnly_workOutAllStores (user : ℤ) : DrawsOnly about (workOutAllStores (.int user)) := by
  refine drawsOnly_bind drawsOnly_current fun s => ?_
  split
  · exact drawsOnly_bind (drawsOnly_lift _) fun _ => drawsOnly_bind drawsOnly_current fun _ =>
      drawsOnly_pure _
  · exact drawsOnly_pure _

theorem drawsOnly_hasAllStores (cached : Bool) (user : ℤ) :
    DrawsOnly about (hasAllStores cached (.int user)) := by
  unfold hasAllStores
  split
  · refine drawsOnly_bind (drawsOnly_onCache _) fun key => drawsOnly_bind drawsOnly_current fun s =>
      ?_
    refine drawsOnly_bind (drawsOnly_getOrCompute _ _ _ ?_) fun _ => drawsOnly_pure _
    exact drawsOnly_bind (drawsOnly_workOutAllStores user) fun _ => drawsOnly_pure _
  · exact drawsOnly_workOutAllStores user

/-- A question draws no graph but that of the store that it is about. -/
theorem graphs_afterAsking (cached : Bool) (s : Session) (query : Query) :
    ∀ g ∈ (s.afterAsking cached query).graphs, g ∈ s.graphs ∨
      query.store?.map Value.int = some g.1 := by
  cases query with
  | permissions user store =>
    have hop : DrawsOnly (some store) (effectivePermissions cached (.int user) (.int store)) :=
      drawsOnly_bind (drawsOnly_permissionMembers cached user) fun _ => drawsOnly_pure _
    exact hop s
  | hasPermission user name store =>
    have hop :
        DrawsOnly (some store) (hasPermission cached (.int user) (.text name) (.int store)) :=
      drawsOnly_bind (drawsOnly_permissionMembers cached user) fun _ => drawsOnly_pure _
    exact hop s
  | hasAllStores user => exact drawsOnly_hasAllStores cached user s
  | lowerRoles role store =>
    have hop : DrawsOnly (some store) (lowerRoles (.int role) (.int store)) :=
      drawsOnly_bind (drawsOnly_lowerRoleIds role) fun _ =>
        drawsOnly_bind drawsOnly_current fun _ => drawsOnly_pure _
    exact hop s
  | isHigher role other store =>
    have hop : DrawsOnly (some store) (isHigher (.int role) (.int other) (.int store)) :=
      drawsOnly_bind (drawsOnly_lowerRoleIds role) fun _ => drawsOnly_pure _
    exact hop s
  | tree store =>
    have hop : DrawsOnly (some store) (hierarchyTree (.int store)) :=
      drawsOnly_bind drawsOnly_graph fun _ => drawsOnly_bind drawsOnly_current fun _ =>
        drawsOnly_pure _
    exact hop s
  | effectiveRoles user store =>
    have hop : DrawsOnly (some store) (effectiveRoles (.int user) (.int store)) :=
      drawsOnly_bind (drawsOnly_effectiveRoleIds user) fun _ =>
        drawsOnly_bind drawsOnly_current fun _ => drawsOnly_pure _
    exact hop s
  | canAct actor target store =>
    have hop : DrawsOnly (some store) (canAct (.int actor) (.int target) (.int store)) := by
      refine drawsOnly_bind (drawsOnly_effectiveRoleIds actor) fun mine =>
        drawsOnly_bind (drawsOnly_effectiveRoleIds target) fun others => ?_
      dsimp only
      split
      · exact drawsOnly_pure _
      · exact drawsOnly_managesAny _ _
    exact hop s

/-! ### Questions -/

/-- The second session is the first one after a question.  Without a cache of its own it leaves the
cache alone, and with one it changes nothing there that belongs to another store. -/
structure Questioned (cached : Bool) (about : Option ℤ) (s : Session) (m : View) (s' : Session)
    (m' : View) : Prop where
  kept : Kept s s'
  uncached : cached = false → m' = m
  apart : ∀ st, about ≠ some st → ∀ k : Key, k.OfStore st →
      m' (k.text s.cache.space) = m (k.text s.cache.space)

theorem Kept.questioned (h : Kept s s') (cached : Bool) (about : Option ℤ) (m : View) :
    Questioned cached about s m s' m :=
  ⟨h, fun _ => rfl, fun _ _ _ _ => rfl⟩

theorem Coherent.looks (h : Coherent shared left s m) (hlooks : Looks st s s') :
    Coherent shared left s' m where
  represents := hlooks.cache ▸ h.represents
  seeds := hlooks.cache ▸ h.seeds
  graphs := hlooks.truth h.graphs
  edges := hlooks.tables ▸ h.edges
  assignments := hlooks.tables ▸ h.assignments
  tells := by
    rw [hlooks.tables, hlooks.settings, hlooks.cache]
    exact h.tells

theorem coherent_afterAsking (h : Coherent shared left s m) (cached : Bool) (query : Query) :
    ∃ m', Coherent shared left (s.afterAsking cached query) m' ∧
      Questioned cached query.store? s m (s.afterAsking cached query) m' := by
  have hlocal : ∀ {α : Type} {operation : SessionM α} {st : ℤ}, Local st operation → ∃ m',
      Coherent shared left (outcome operation s).2 m' ∧
        Questioned cached query.store? s m (outcome operation s).2 m' :=
    fun hop => ⟨m, h.looks (hop.looks s), (hop.looks s).consulted.kept.questioned cached _ m⟩
  have hanswers :
      ∀ {α : Type} {operation : SessionM α} {r : Except Failure α} {m' : View} {P : Key → Prop},
      cached = true → Differ P s.cache.space m m' → Answers shared left operation s r m' →
      (∀ st, query.store? ≠ some st → ∀ k : Key, k.OfStore st → ¬P k) → ∃ m',
        Coherent shared left (outcome operation s).2 m' ∧
          Questioned cached query.store? s m (outcome operation s).2 m' := by
    rintro α operation r m' P hcached hdiffer ⟨s', hrun, hkept, h'⟩ hP
    rw [hrun]
    exact ⟨m', h', hkept, fun hno => absurd (hcached.symm.trans hno) (by decide),
      fun st hst k hk => hdiffer k (hP st hst k hk)⟩
  cases query with
  | permissions user store =>
    cases cached with
    | false => exact hlocal (local_permissions user)
    | true =>
      obtain ⟨m', hdiffer, hanswer⟩ := answers_effectivePermissions h user store
      exact hanswers rfl hdiffer hanswer fun st hst k hk => hk.other fun heq =>
        hst (congrArg some heq.symm)
  | hasPermission user name store =>
    cases cached with
    | false =>
      refine hlocal (local_bind (local_bind (local_workOutPermissions user) fun _ => local_pure _)
        fun members => ?_)
      exact local_pure _
    | true =>
      obtain ⟨m', hdiffer, hanswer⟩ := answers_hasPermission h user store name
      exact hanswers rfl hdiffer hanswer fun st hst k hk => hk.other fun heq =>
        hst (congrArg some heq.symm)
  | hasAllStores user =>
    cases cached with
    | false =>
      have hanswer : Answers shared left (hasAllStores false (.int user)) s _ m :=
        answers_workOutAllStores h user
      obtain ⟨s', hrun, hkept, h'⟩ := hanswer
      rw [afterAsking, hrun]
      exact ⟨m, h', hkept.questioned false none m⟩
    | true =>
      obtain ⟨m', hdiffer, hanswer⟩ := answers_hasAllStores h user
      refine hanswers rfl hdiffer hanswer fun st hst k hk heq => ?_
      rw [heq] at hk
      exact hk
  | lowerRoles role store => exact hlocal (local_lowerRoles role)
  | isHigher role other store => exact hlocal (local_isHigher role other)
  | tree store => exact hlocal local_hierarchyTree
  | effectiveRoles user store => exact hlocal (local_effectiveRoles user)
  | canAct actor target store => exact hlocal (local_canAct actor target)

/-! ### What is forgotten -/

/-- No graph of a store is kept, and nothing is remembered of the permissions there
under its present epoch. -/
structure Forgotten (st : ℤ) (s : Session) (m : View) : Prop where
  graph : ∀ g ∈ s.graphs, g.1 ≠ .int st
  permissions : ∀ u n, m ((Key.epoch st).text s.cache.space) = some (.int n, none) →
    m ((Key.permissions u st n).text s.cache.space) = none

theorem Forgotten.apart (h : Forgotten st s m) (hspace : s'.cache.space = s.cache.space)
    (hgraphs : ∀ g ∈ s'.graphs, g ∈ s.graphs ∨ g.1 ≠ .int st)
    (hkeys : ∀ k : Key, k.OfStore st → m' (k.text s.cache.space) = m (k.text s.cache.space)) :
    Forgotten st s' m' where
  graph g hg := (hgraphs g hg).elim (h.graph g) id
  permissions u n hn := by
    rw [hspace] at hn ⊢
    rw [hkeys (.epoch st) rfl] at hn
    rw [hkeys (.permissions u st n) rfl]
    exact h.permissions u n hn

theorem Forgotten.questioned (h : Forgotten st s m) {cached : Bool} {query : Query}
    (hquestioned : Questioned cached query.store? s m (s.afterAsking cached query) m')
    (hother : query.store? ≠ some st) :
    Forgotten st (s.afterAsking cached query) m' := by
  refine h.apart hquestioned.kept.cache.space (fun g hg => ?_) (hquestioned.apart st hother)
  refine (graphs_afterAsking cached s query g hg).imp_right fun hdrawn heq => hother ?_
  rw [heq] at hdrawn
  obtain ⟨other, hstore, hsame⟩ := Option.map_eq_some_iff.mp hdrawn
  rw [hstore, Value.int.inj hsame]

/-- A session whose changes can be given up: its tables and the saved ones differ in their edges
only.  Without a cache of its own it has nothing remembered. -/
structure Restorable (cached shared : Bool) (left : ℕ) (s : Session) (m : View) : Prop where
  coherent : Coherent shared left s m
  silent : cached = false → m = fun _ => none
  rest : s.saved = { s.tables with edges := s.saved.edges }
  keyed : Table.edges.Keyed s.saved.edges

variable {cached : Bool} {t : Tables}

theorem Restorable.fewer (h : Restorable cached shared (left + 1) s m) :
    Restorable cached shared left s m :=
  { h with coherent := h.coherent.fewer }

theorem Restorable.noted (h : Restorable cached shared left s m) (hnoted : Noted s s') :
    Restorable cached shared left s' m where
  coherent := h.coherent.noted hnoted
  silent := h.silent
  rest := by
    rw [hnoted.saved, hnoted.tables]
    exact h.rest
  keyed := hnoted.saved ▸ h.keyed

theorem ne_of_dropped {graphs : List (Value × RoleGraph ℤ)} {g : Value × RoleGraph ℤ}
    (hg : g ∈ graphs.filter (!·.1.alike (.int st))) : g.1 ≠ .int st := by
  intro heq
  have halike := (List.mem_filter.mp hg).2
  rw [heq, Value.alike_int] at halike
  simp at halike

theorem coherent_afterEdges_silent (h : Coherent shared left s fun _ => none)
    (hchange : EdgeChange st s.tables t) :
    Coherent shared left (afterEdges false st t s) fun _ => none := by
  have hframe := hchange.frame h.edges
  obtain ⟨c, records, hafter, hcache⟩ := afterEdges_eq false st t s
  obtain rfl := hcache rfl
  rw [hafter]
  refine ⟨h.represents, h.seeds, fun g hg => ?_, hframe.keyed, ?_, .empty fun _ => rfl⟩
  · obtain ⟨st', hfits, rfl⟩ := h.graphs g (List.mem_filter.mp hg).1
    have hne : st' ≠ st := fun heq => ne_of_dropped hg (congrArg Value.int heq)
    exact ⟨st', hfits, by rw [← hframe.graphOf st' hne]⟩
  · rw [hframe.rest]
    exact h.assignments

theorem Coherent.unused (h : Coherent shared left s m) {n : ℤ}
    (hepoch : m ((Key.epoch st).text s.cache.space) = some (.int n, none) ∨
      m ((Key.epoch st).text s.cache.space) = none)
    (u : ℤ) : m ((Key.permissions u st (n + 1)).text s.cache.space) = none := by
  cases hp : m ((Key.permissions u st (n + 1)).text s.cache.space) with
  | none => rfl
  | some p =>
    obtain ⟨-, reached, hreached, hle, -⟩ := h.tells.permissions u st (n + 1) p hp
    rcases hepoch with hn | hnone
    · obtain rfl : n = reached := by simpa [hn] using hreached
      omega
    · rw [hnone] at hreached
      cases hreached

/-- A change of the hierarchy of a store forgets what was derived from it, and brings nothing
back. -/
theorem restorable_afterEdges (h : Restorable cached shared (left + 1) s m)
    (hchange : EdgeChange st s.tables t) :
    ∃ m', Restorable cached shared left (afterEdges cached st t s) m' ∧
      (afterEdges cached st t s).settings = s.settings ∧
        Forgotten st (afterEdges cached st t s) m' ∧
      ∀ other, other ≠ st → Forgotten other s m →
        Forgotten other (afterEdges cached st t s) m' := by
  obtain ⟨c, records, hafter, hcache⟩ := afterEdges_eq cached st t s
  have hrest : s.saved = { t with edges := s.saved.edges } := by
    rw [(hchange.frame h.coherent.edges).rest]
    exact h.rest
  have hfewer : ∀ other, ∀ g ∈ s.graphs.filter (!·.1.alike (.int st)), g ∈ s.graphs ∨
      g.1 ≠ .int other :=
    fun _ g hg => .inl (List.mem_filter.mp hg).1
  cases cached with
  | false =>
    obtain rfl := h.silent rfl
    obtain rfl := hcache rfl
    have hcoherent := coherent_afterEdges_silent h.coherent.fewer hchange
    rw [hafter] at hcoherent ⊢
    refine ⟨_, ⟨hcoherent, fun _ => rfl, hrest, h.keyed⟩, rfl,
      ⟨fun g => ne_of_dropped, fun _ _ _ => rfl⟩, ?_⟩
    exact fun other _ hother => hother.apart rfl (hfewer other) fun _ _ => rfl
  | true =>
    obtain ⟨n, hepoch, hlater, hcoherent⟩ := coherent_afterEdges h.coherent hchange
    have hspace := hlater.cache.space
    rw [hafter] at hcoherent hspace ⊢
    refine ⟨_, ⟨hcoherent, nofun, hrest, h.keyed⟩, rfl, ⟨fun g => ne_of_dropped, fun u k hk => ?_⟩,
      fun other hne hother => hother.apart hspace (hfewer other) fun k hk => ?_⟩
    · rw [hspace, View.set_text rfl, if_pos rfl] at hk
      obtain rfl : k = n + 1 := by simpa using hk.symm
      rw [hspace, View.set_text rfl, if_neg (by simp)]
      exact h.coherent.unused hepoch u
    · rw [View.set_text rfl, if_neg]
      rintro rfl
      exact hne hk.symm

/-! ### Runs -/

/-- What an act does with a session whose changes can be given up.  What is forgotten of a store
is not brought back unless the store is asked about, and a change of a hierarchy makes what was
derived from it forgotten. -/
theorem restorable_act (h : Restorable cached shared (left + 1) s m) (act : Act) :
    ∃ m', Restorable cached shared left (s.afterAct cached act) m' ∧
      (s.afterAct cached act).settings = s.settings ∧
      (∀ st, Forgotten st s m → (∀ query, act = .ask query → query.store? ≠ some st) →
        Forgotten st (s.afterAct cached act) m') ∧
      ∀ call, act = .change call → (s.afterAct cached act).tables ≠ s.tables →
        Forgotten call.store (s.afterAct cached act) m' := by
  cases act with
  | change call =>
    rcases step_hierarchyCall cached call s with hnoted | ⟨t, hchange, hnoted⟩
    · refine ⟨m, h.fewer.noted hnoted, hnoted.settings, fun st hst _ => ?_,
        fun _ _ hne => absurd hnoted.tables hne⟩
      refine hst.apart (congrArg Cache.space hnoted.cache) (fun g hg => .inl ?_) fun _ _ => rfl
      exact hnoted.graphs ▸ hg
    · obtain ⟨m', h', hsettings, hforgotten, hothers⟩ := restorable_afterEdges h hchange
      have hnotes : ∀ st, Forgotten st (afterEdges cached call.store t s) m' →
          Forgotten st (afterHierarchyCall cached call s) m' := fun st hst =>
        hst.apart (congrArg Cache.space hnoted.cache) (fun g hg => .inl (hnoted.graphs ▸ hg))
          fun _ _ => rfl
      refine ⟨m', h'.noted hnoted, hnoted.settings.trans hsettings, fun st hst _ => hnotes st ?_,
        fun call' heq _ => ?_⟩
      · by_cases hsame : st = call.store
        · exact hsame ▸ hforgotten
        · exact hothers st hsame hst
      · cases heq
        exact hnotes _ hforgotten
  | ask query =>
    obtain ⟨m', hcoherent, hquestioned⟩ := coherent_afterAsking h.coherent.fewer cached query
    refine ⟨m', ⟨hcoherent, fun hno => (hquestioned.uncached hno).trans (h.silent hno), ?_, ?_⟩,
      hquestioned.kept.settings, fun st hst hother => hst.questioned hquestioned (hother query rfl),
        nofun⟩
    · have hsaved : (s.afterAct cached (.ask query)).saved = s.saved := hquestioned.kept.saved
      have htables : (s.afterAct cached (.ask query)).tables = s.tables := hquestioned.kept.tables
      rw [hsaved, htables]
      exact h.rest
    · exact hquestioned.kept.saved ▸ h.keyed
  | advance seconds =>
    refine ⟨_, ⟨coherent_advance h.coherent.fewer seconds, fun hno => ?_, h.rest, h.keyed⟩, rfl,
      fun st hst _ => ?_, nofun⟩
    · rw [h.silent hno]
      rfl
    · refine ⟨hst.graph, fun u n hn => ?_⟩
      have hpresent := (Option.filter_eq_some_iff.mp hn).1
      exact congrArg (Option.filter _) (hst.permissions u n hpresent)
  | commit =>
    refine ⟨m, ⟨{ h.coherent.fewer with }, h.silent, rfl, h.coherent.edges⟩, rfl,
      fun st hst _ => ?_, nofun⟩
    exact ⟨hst.graph, hst.permissions⟩

theorem restorable_acts (acts : List Act) (h : Restorable cached shared (left + acts.length) s m) :
    ∃ m', Restorable cached shared left (s.afterActs cached acts) m' ∧
      (s.afterActs cached acts).settings = s.settings ∧
      ∀ st, (Forgotten st s m ∧ ∀ query, .ask query ∈ acts → query.store? ≠ some st) ∨
        s.LeftAlone cached acts st →
        Forgotten st (s.afterActs cached acts) m' := by
  induction acts generalizing s m with
  | nil =>
    refine ⟨m, h, rfl, fun st hst => ?_⟩
    rcases hst with ⟨hst, -⟩ | ⟨before, call, after, hacts, -⟩
    · exact hst
    · simp at hacts
  | cons act acts ih =>
    obtain ⟨m₁, h₁, hsettings₁, hkept, hchanged⟩ := restorable_act h act
    obtain ⟨m₂, h₂, hsettings₂, hforgotten⟩ := ih h₁
    refine ⟨m₂, h₂, hsettings₂.trans hsettings₁, fun st hst => hforgotten st ?_⟩
    rcases hst with ⟨hst, hothers⟩ | ⟨before, call, after, hacts, hstore, hne, hothers⟩
    · refine .inl ⟨hkept st hst fun query heq => hothers query (heq ▸ List.mem_cons_self),
        fun query hquery => ?_⟩
      exact hothers query (List.mem_cons_of_mem _ hquery)
    · cases before with
      | nil =>
        obtain ⟨rfl, rfl⟩ := List.cons.inj hacts
        exact .inl ⟨hstore ▸ hchanged call rfl hne, hothers⟩
      | cons first before =>
        obtain ⟨rfl, rfl⟩ := List.cons.inj hacts
        exact .inr ⟨before, call, after, rfl, hstore, hne, hothers⟩

/-! ### Changes that are given up -/

/-- When every store has its saved graph, or nothing is kept of it, giving the changes up
leaves a session coherent. -/
theorem Restorable.rollback (h : Restorable cached shared left s m)
    (hstores : ∀ st, s.tables.graphOf st = s.saved.graphOf st ∨ Forgotten st s m) :
    Restorable cached shared left s.rollback m where
  coherent := by
    have hdirect : ∀ u st, s.saved.directRoles u st = s.tables.directRoles u st :=
      fun u st => by rw [h.rest]; rfl
    refine ⟨h.coherent.represents, h.coherent.seeds, fun g hg => ?_, h.keyed, ?_, ?_⟩
    · obtain ⟨st, hfits, rfl⟩ := h.coherent.graphs g hg
      rcases hstores st with hsame | hforgotten
      · exact ⟨st, hfits, by rw [hsame]; rfl⟩
      · exact absurd rfl (hforgotten.graph _ hg)
    · have hsame : s.saved.assignments = s.tables.assignments := by rw [h.rest]
      exact hsame ▸ h.coherent.assignments
    · refine ⟨h.coherent.tells.epochs, fun u st e p hp => ?_, fun u p hp => ?_⟩
      · obtain ⟨hfits, n, hn, hle, htrue⟩ := h.coherent.tells.permissions u st e p hp
        refine ⟨hfits, n, hn, hle, fun heq => ?_⟩
        rcases hstores st with hsame | hforgotten
        · rw [htrue heq]
          refine congrArg Value.texts (Tables.permissionsIn_congr (hdirect u st).symm hsame ?_ ?_)
          all_goals rw [Session.rollback, h.rest]
        · have hnone : m ((Key.permissions u st n).text s.rollback.cache.space) = none :=
            hforgotten.permissions u n hn
          rw [heq, hnone] at hp
          cases hp
      · have htold := h.coherent.tells.allStores u p hp
        rw [show s.rollback.tables = s.saved from rfl, h.rest]
        exact htold
  silent := h.silent
  rest := rfl
  keyed := h.keyed

theorem tables_afterActs (acts : List Act) (h : Restorable cached shared (left + acts.length) s m)
    (hacts : ∀ call, .change call ∉ acts) : (s.afterActs cached acts).tables = s.tables := by
  induction acts generalizing s m with
  | nil => rfl
  | cons act acts ih =>
    obtain ⟨m₁, h₁, -⟩ := restorable_act h act
    refine (ih h₁ fun call hcall => hacts call (List.mem_cons_of_mem _ hcall)).trans ?_
    cases act with
    | change call => exact absurd List.mem_cons_self (hacts call)
    | ask query =>
      obtain ⟨m', -, hquestioned⟩ := coherent_afterAsking h.coherent cached query
      exact hquestioned.kept.tables
    | advance seconds => rfl
    | commit => rfl

/-- The questions about a store are answered from some tables: which roles are below another,
whether one is above another, what the tree is, and which permissions a user has. -/
structure AnsweredFrom (t : Tables) (cached : Bool) (s : Session) (st : ℤ) : Prop where
  lowerRoleIds (role : ℤ) : ∃ ids, (outcome (lowerRoleIds (.int role) (.int st)) s).1 = .ok ids ∧
    ∀ other, other ∈ ids ↔ other ≠ role ∧ ∃ n ≤ s.settings.hierarchyMaxDepth.toNat,
      t.Path st n role other
  isHigher (role other : ℤ) :
      ∃ above, (outcome (isHigher (.int role) (.int other) (.int st)) s).1 = .ok above ∧
    (above = true ↔ other ≠ role ∧ ∃ n ≤ s.settings.hierarchyMaxDepth.toNat, t.Path st n role other)
  tree : (outcome (hierarchyTree (.int st)) s).1 = .ok (treeValues t (t.graphOf st).forest)
  permissions (user : ℤ) (huser : fits user) : ∃ names,
    (outcome (effectivePermissions cached (.int user) (.int st)) s).1 = .ok names ∧
      ∀ name, name ∈ names ↔ t.Grants s.settings.hierarchyMaxDepth.toNat user st name

theorem mem_lowerRoles {depth role other : ℤ} :
    other ∈ (t.graphOf st).descendants role (some depth) ↔
    other ≠ role ∧ ∃ n ≤ depth.toNat, t.Path st n role other := by
  simp only [RoleGraph.mem_descendants, RoleGraph.Within, Tables.steps_graphOf]

/-- A coherent session answers from its tables. -/
theorem Coherent.answeredFrom (h : Coherent shared left s m) (cached : Bool) (hst : fits st) :
    AnsweredFrom s.tables cached s st where
  lowerRoleIds role := by
    obtain ⟨s', hrun, -⟩ := answers_lowerRoleIds h role st
    rw [if_pos hst] at hrun
    exact ⟨_, congrArg Prod.fst hrun, fun other => mem_lowerRoles⟩
  isHigher role other := by
    obtain ⟨s', hrun, -⟩ := answers_lowerRoleIds h role st
    rw [if_pos hst] at hrun
    refine ⟨_, ?_, List.contains_iff_mem.trans mem_lowerRoles⟩
    unfold Session.isHigher
    rw [outcome_bind, hrun]
    rfl
  tree := by
    obtain ⟨s', hrun, hkept, -⟩ := answers_graph h st
    rw [if_pos hst] at hrun
    unfold hierarchyTree
    rw [outcome_bind, hrun, andThen_ok, outcome_bind, outcome_current, andThen_ok, outcome_pure,
      hkept.tables]
  permissions user huser := by
    obtain ⟨m', -, s', hrun, -⟩ := mirrors_inStore cached user st h
    dsimp only at hrun
    rw [source_inStore, if_pos ⟨huser, hst⟩] at hrun
    exact ⟨_, congrArg Prod.fst hrun, fun name => Tables.mem_permissionsIn⟩

/-- Hierarchies are changed and asked about in a session that is fresh, with or without a cache,
some of it being saved.  Then the rest is given up.  If every store has its saved graph back by
then or has not been asked about since its last change, whatever is asked after that is answered
from the saved tables. -/
theorem answers_after_rollback (cached : Bool) (s : Session) (acts later : List Act)
    (hs : s.Fresh shared (acts.length + later.length)) (hsaved : s.saved = s.tables)
    (hcareful : s.CarefulActs cached acts) (hlater : ∀ call, .change call ∉ later) :
    let s' := (s.afterActs cached acts).rollback.afterActs cached later
    s'.settings = s.settings ∧ s'.tables = (s.afterActs cached acts).saved ∧
      ∀ st, fits st → AnsweredFrom (s.afterActs cached acts).saved cached s' st := by
  intro s'
  have hstart : Restorable cached shared (later.length + acts.length) s fun _ => none :=
    ⟨Nat.add_comm acts.length _ ▸ coherent_fresh hs,
     fun _ => rfl, by rw [hsaved], hsaved ▸ hs.edges⟩
  obtain ⟨m₁, h₁, hsettings₁, hforgotten⟩ := restorable_acts acts hstart
  have h₂ := h₁.rollback fun st => (hcareful st).imp_right fun hleft => hforgotten st (.inr hleft)
  rw [← Nat.zero_add later.length] at h₂
  obtain ⟨m₃, h₃, hsettings₃, -⟩ := restorable_acts later h₂
  have htables : s'.tables = (s.afterActs cached acts).saved := tables_afterActs later h₂ hlater
  exact ⟨hsettings₃.trans hsettings₁, htables,
    fun st hst => htables ▸ h₃.coherent.answeredFrom cached hst⟩

/-- The head is taken from above the staff after the permissions were asked for, and
nobody asks after that. -/
def takenBack : List Act := [.ask (.permissions 1 1), .change (.remove 1 2 1), .advance 3]

theorem answers_after_rollback_takenBack :
    let s' :=
  (headedStore.afterActs true takenBack).rollback.afterActs true [.ask (.permissions 1 1)]
    (outcome (lowerRoleIds (.int 1) (.int 1)) s').1.toOption = some [2] ∧
      s'.tables = (headedStore.afterActs true takenBack).saved ∧
      AnsweredFrom (headedStore.afterActs true takenBack).saved true s' 1 := by
  have hfresh : headedStore.Fresh false (takenBack.length + 1) :=
    fresh_memory (s := headedStore) rfl rfl (List.nodup_singleton _) (List.nodup_singleton _) _
  have hcareful : headedStore.CarefulActs true takenBack := by
    intro st
    by_cases hst : st = 1
    · -- The store of the change is not asked about any more.
      subst hst
      refine .inr ⟨[.ask (.permissions 1 1)], .remove 1 2 1, [.advance 3], rfl, rfl,
        fun hsame => ?_, by simp⟩
      exact absurd (congrArg (·.edges.length) hsame) (by decide +kernel)
    · have hnow : (headedStore.afterActs true takenBack).tables.edges = [] :=
        List.isEmpty_iff.mp (by decide +kernel)
      have hstores : (headedStore.afterActs true takenBack).saved.edges.map (·.store) = [1] := by
        decide +kernel
      have hnone : (headedStore.afterActs true takenBack).saved.activeEdges st = [] := by
        refine List.filter_eq_nil_iff.mpr fun e he hactive => ?_
        have hone : e.store ∈ [(1 : ℤ)] := hstores ▸ List.mem_map_of_mem he
        obtain rfl : e.store = st := by simpa using (Bool.and_eq_true_iff.mp hactive).1
        exact hst (by simpa using hone)
      refine .inl ?_
      rw [Tables.graphOf, Tables.graphOf, hnone, Tables.activeEdges, hnow, List.filter_nil]
  obtain ⟨-, htables, hanswers⟩ :=
    answers_after_rollback true headedStore takenBack [.ask (.permissions 1 1)] hfresh rfl
    hcareful (by simp)
  exact ⟨by decide +kernel, htables, hanswers 1 (by decide)⟩

/-- The head is taken from above the staff, this is asked about, and then it is given up.  Without a
cache the session goes on to say that nobody is below the head; with one, even a new session is told
that the head may not do what the staff may.  The restored edges say otherwise. -/
theorem answered_from_givenUp :
    let alone :=
  (headedStore.afterActs false [.change (.remove 1 2 1), .ask (.lowerRoles 1 1)]).rollback
    let cached :=
      (headedStore.afterActs true [.change (.remove 1 2 1), .ask (.permissions 1 1)]).rollback
    (alone.tables.Manages 1 1 2 ∧
      (outcome (lowerRoleIds (.int 1) (.int 1)) alone).1.toOption = some []) ∧
      cached.tables.Grants cached.settings.hierarchyMaxDepth.toNat 1 1 "orders.read" ∧
        (outcome (effectivePermissions true (.int 1) (.int 1)) cached.reopen).1.toOption =
          some [] := by
  refine ⟨⟨(Tables.manages_graphOf _ 1 1 2).mp ?_, by decide +kernel⟩,
    Tables.mem_permissionsIn.mp ?_, by decide +kernel⟩
  · unfold RoleGraph.Manages
    decide +kernel
  · decide +kernel

end Session
end AccessControl
