import AccessControl.Proofs.Cache.Coherence
import AccessControl.Proofs.Value.Member
import AccessControl.Session.Permissions
import Mathlib

/-! # What queries answer

A session is `Coherent` when what it keeps of the hierarchies and what its cache tells are true of
its tables.  A query of a coherent session `Answers` with a result or a failure, and leaves it
coherent over the same tables.  With a cache, the permissions in a store and the question about all
stores are answered as the tables say (`answers_effectivePermissions`, `answers_hasAllStores`). -/

namespace AccessControl
namespace Session

open Cache Database

/-! ### Coherent sessions -/

/-- A counter may still be raised so many times before a string store could not read it back. -/
def Room (shared : Bool) (left : ℕ) (n : ℤ) : Prop :=
  shared = true → n.natAbs + left < 10 ^ Text.digitLimit

theorem room_memory (left : ℕ) (n : ℤ) : Room false left n :=
  fun hshared => absurd hshared Bool.false_ne_true

theorem Room.countable {shared : Bool} {left : ℕ} {n : ℤ} (h : Room shared left n) :
    Countable shared n :=
  fun hshared => lt_of_le_of_lt (Nat.le_add_right n.natAbs left) (h hshared)

theorem Room.mono {shared : Bool} {left left' : ℕ} {n : ℤ} (h : Room shared left n)
    (hle : left' ≤ left) :
    Room shared left' n := fun hshared => lt_of_le_of_lt (by omega) (h hshared)

theorem Room.fewer {shared : Bool} {left : ℕ} {n : ℤ} (h : Room shared (left + 1) n) :
    Room shared left n :=
  h.mono (Nat.le_succ left)

theorem Room.next {shared : Bool} {left : ℕ} {n : ℤ} (h : Room shared (left + 1) n) :
    Room shared left (n + 1) :=
  fun hshared => lt_of_le_of_lt (by omega) (h hshared)

/-- The cache represents a view that is true of the tables, and so are the graphs that are kept;
rows have numbers of their own, and no counter comes near its limit. -/
structure Coherent (shared : Bool) (left : ℕ) (s : Session) (m : View) : Prop where
  represents : Represents shared s.cache m
  seeds : ∀ n, IsSeed s.cache n → Room shared left n
  graphs : ∀ g ∈ s.graphs, ∃ st, fits st ∧ g = (.int st, s.tables.graphOf st)
  edges : Table.edges.Keyed s.tables.edges
  assignments : Table.assignments.Keyed s.tables.assignments
  tells : Tells s.tables s.settings.hierarchyMaxDepth s.cache.space (Room shared left) m

/-- The second session is the first one after queries. -/
structure Kept (s s' : Session) : Prop where
  settings : s'.settings = s.settings
  tables : s'.tables = s.tables
  saved : s'.saved = s.saved
  cache : Steady s.cache s'.cache

theorem Kept.refl (s : Session) : Kept s s := ⟨rfl, rfl, rfl, .refl _⟩

theorem Kept.trans {s₁ s₂ s₃ : Session} (h : Kept s₁ s₂) (h' : Kept s₂ s₃) : Kept s₁ s₃ where
  settings := h'.settings.trans h.settings
  tables := h'.tables.trans h.tables
  saved := h'.saved.trans h.saved
  cache := h.cache.trans h'.cache

variable {shared : Bool} {left : ℕ} {s : Session} {m m' : View} {α β : Type}

theorem Coherent.noted (h : Coherent shared left s m) {s' : Session} (hnoted : Noted s s') :
    Coherent shared left s' m where
  represents := hnoted.cache ▸ h.represents
  seeds := hnoted.cache ▸ h.seeds
  graphs := by
    rw [hnoted.graphs, hnoted.tables]
    exact h.graphs
  edges := hnoted.tables ▸ h.edges
  assignments := hnoted.tables ▸ h.assignments
  tells := by
    rw [hnoted.tables, hnoted.settings, hnoted.cache]
    exact h.tells

theorem Coherent.rules (h : Coherent shared left s m) {t : Tables}
    (hrest : t = { s.tables with rules := t.rules }) :
    Coherent shared left { s with tables := t } m := by
  rw [hrest]
  exact ⟨h.represents, h.seeds, h.graphs, h.edges, h.assignments, h.tells.epochs,
    h.tells.permissions, h.tells.allStores⟩

theorem Coherent.mono (h : Coherent shared left s m) {left' : ℕ} (hle : left' ≤ left) :
    Coherent shared left' s m :=
  { h with
    seeds := fun n hn => (h.seeds n hn).mono hle
    tells := h.tells.mono fun _ hn => hn.mono hle }

theorem Coherent.fewer (h : Coherent shared (left + 1) s m) : Coherent shared left s m :=
  h.mono (Nat.le_succ left)

/-- The session after an operation of its cache. -/
def withCache (s : Session) (c : Cache) : Session :=
  { s with cache := { c with records := [] }, records := s.records ++ c.records }

theorem Coherent.withCache (h : Coherent shared left s m) {c : Cache} (hsteady : Steady s.cache c)
    (hrep : Represents shared c m')
    (htells : Tells s.tables s.settings.hierarchyMaxDepth s.cache.space (Room shared left) m') :
    Coherent shared left (s.withCache c) m' where
  represents := hrep
  seeds n hn := h.seeds n (hsteady.isSeed hn)
  graphs := h.graphs
  edges := h.edges
  assignments := h.assignments
  tells := by
    rw [show (s.withCache c).cache.space = s.cache.space from hsteady.space]
    exact htells

/-! ### Answers -/

/-- An operation gives a result or a failure, and leads to a coherent session over the same
tables. -/
def Answers (shared : Bool) (left : ℕ) (operation : SessionM α) (s : Session) (r : Except Failure α)
    (m : View) : Prop :=
  ∃ s', outcome operation s = (r, s') ∧ Kept s s' ∧ Coherent shared left s' m

theorem answers_outcome (h : Coherent shared left s m) {operation : SessionM α}
    {r : Except Failure α} (hrun : outcome operation s = (r, s)) :
    Answers shared left operation s r m :=
  ⟨s, hrun, .refl s, h⟩

theorem answers_pure (h : Coherent shared left s m) (a : α) :
    Answers shared left (pure a) s (.ok a) m :=
  answers_outcome h rfl

theorem answers_bind {x : SessionM α} {f : α → SessionM β} {a : α} {r : Except Failure β}
    (hx : Answers shared left x s (.ok a) m)
    (hf : ∀ s', Kept s s' → Coherent shared left s' m → Answers shared left (f a) s' r m') :
    Answers shared left (x >>= f) s r m' := by
  obtain ⟨s₁, hrun, hkept, h₁⟩ := hx
  obtain ⟨s₂, hrun', hkept', h₂⟩ := hf s₁ hkept h₁
  exact ⟨s₂, by rw [outcome_bind, hrun, andThen_ok, hrun'], hkept.trans hkept', h₂⟩

theorem answers_bind_error {x : SessionM α} {f : α → SessionM β} {e : Failure}
    (hx : Answers shared left x s (.error e) m) : Answers shared left (x >>= f) s (.error e) m := by
  obtain ⟨s₁, hrun, hkept, h₁⟩ := hx
  exact ⟨s₁, by rw [outcome_bind, hrun, andThen_error], hkept, h₁⟩

theorem answers_current {f : Session → SessionM β} {r : Except Failure β}
    (hf : Answers shared left (f s) s r m) :
    Answers shared left (current >>= f) s r m := by
  obtain ⟨s', hrun, hrest⟩ := hf
  exact ⟨s', by rw [outcome_bind, outcome_current, andThen_ok, hrun], hrest⟩

theorem answers_lift {x : Except Failure α} {f : α → SessionM β} {a : α} {r : Except Failure β}
    (hx : x = .ok a) (hf : Answers shared left (f a) s r m) :
    Answers shared left (liftM x >>= f) s r m := by
  obtain ⟨s', hrun, hrest⟩ := hf
  exact ⟨s', by rw [outcome_bind, outcome_lift, hx, andThen_ok, hrun], hrest⟩

theorem answers_lift_error (h : Coherent shared left s m) {x : Except Failure α}
    {f : α → SessionM β} {e : Failure} (hx : x = .error e) :
    Answers shared left (liftM x >>= f) s (.error e) m :=
  answers_outcome h (by rw [outcome_bind, outcome_lift, hx, andThen_error])

theorem answers_onCache (h : Coherent shared left s m) {operation : CacheM α} {a : α}
    (hop : Yields shared operation s.cache a m')
    (htells : Tells s.tables s.settings.hierarchyMaxDepth s.cache.space (Room shared left) m') :
    Answers shared left (liftM operation : SessionM α) s (.ok a) m' := by
  obtain ⟨c, hrun, hsteady, hrep⟩ := hop
  refine ⟨s.withCache c, ?_, ⟨rfl, rfl, rfl, hsteady.clock, hsteady.space, hsteady.seeds⟩,
    h.withCache hsteady hrep htells⟩
  rw [outcome_onCache, hrun]
  rfl

/-! ### Remembered answers -/

theorem ttlSeconds_pos (d : Duration) : 0 < d.ttlSeconds := by simp [Duration.ttlSeconds]

section getOrCompute

variable {key label : String} {ttl : ℤ} {compute : SessionM Value} {v : Value}

theorem answers_getOrCompute_hit (h : Coherent shared left s m) {t : Option ℤ}
    (hp : m key = some (v, t)) (hnull : v.isNull = false) :
    Answers shared left (getOrCompute key (some ttl) label compute) s (.ok v) m := by
  have hread := remembered_spec h.represents key label
  rw [View.value, hp, Option.map_some, Option.getD_some] at hread
  refine answers_bind (answers_onCache h hread h.tells) fun s₁ _ h₁ => ?_
  rw [hnull]
  exact answers_pure h₁ v

/-- What is not remembered is computed, and then remembered as the back end gives it back. -/
theorem answers_getOrCompute_shown (h : Coherent shared left s m) (hnone : m key = none)
    (httl : 0 < ttl) {P : View → Prop}
    (hcompute : ∀ s', Kept s s' → Coherent shared left s' m →
      ∃ m', P m' ∧ Answers shared left compute s' (.ok v) m')
    (hnull : v.isNull = false) {w : Value} (hvw : GivenBack shared v w) {t : Option ℤ}
    (ht : t = some (s.cache.clock + ttl))
    (htells : ∀ m', P m' →
      Tells s.tables s.settings.hierarchyMaxDepth s.cache.space (Room shared left) m' →
      Tells s.tables s.settings.hierarchyMaxDepth s.cache.space (Room shared left)
      (m'.set key w t)) :
    ∃ m', P m' ∧
      Answers shared left (getOrCompute key (some ttl) label compute) s (.ok v)
      (m'.set key w t) := by
  subst ht
  have hread := remembered_spec h.represents key label
  rw [View.value, hnone, Option.map_none, Option.getD_none] at hread
  obtain ⟨s₁, hrun₁, hk₁, h₁⟩ := answers_onCache h hread h.tells
  obtain ⟨m', hm', s₂, hrun₂, hk₂, h₂⟩ := hcompute s₁ hk₁ h₁
  have hkept := hk₁.trans hk₂
  have hwrite :=
    remember_shown h₂.represents key hnull hvw fun t (ht : some ttl = some t) =>
      Option.some.inj ht ▸ httl
  rw [hkept.cache.clock] at hwrite
  have htells₂ := h₂.tells
  rw [hkept.tables, hkept.settings, hkept.cache.space] at htells₂
  obtain ⟨s₃, hrun₃, hk₃, h₃⟩ := answers_onCache h₂ hwrite (by
    rw [hkept.tables, hkept.settings, hkept.cache.space]
    exact htells m' hm' htells₂)
  refine ⟨m', hm', s₃, ?_, hkept.trans hk₃, h₃⟩
  unfold getOrCompute
  rw [outcome_bind, hrun₁, andThen_ok, if_neg (by decide), outcome_bind, hrun₂, andThen_ok,
    outcome_bind, hrun₃]
  rfl

theorem answers_getOrCompute_computed (h : Coherent shared left s m) (hnone : m key = none)
    (httl : 0 < ttl) {P : View → Prop}
    (hcompute : ∀ s', Kept s s' → Coherent shared left s' m →
      ∃ m', P m' ∧ Answers shared left compute s' (.ok v) m')
    (hnull : v.isNull = false) (hstorable : Storable shared v) {t : Option ℤ}
    (ht : t = some (s.cache.clock + ttl))
    (htells : ∀ m', P m' →
      Tells s.tables s.settings.hierarchyMaxDepth s.cache.space (Room shared left) m' →
      Tells s.tables s.settings.hierarchyMaxDepth s.cache.space (Room shared left)
      (m'.set key v t)) :
    ∃ m', P m' ∧
      Answers shared left (getOrCompute key (some ttl) label compute) s (.ok v) (m'.set key v t) :=
  answers_getOrCompute_shown h hnone httl hcompute hnull hstorable.givenBack ht htells

theorem answers_getOrCompute_miss (h : Coherent shared left s m) (hnone : m key = none)
    (httl : 0 < ttl)
    (hcompute : ∀ s', Kept s s' → Coherent shared left s' m →
      Answers shared left compute s' (.ok v) m')
    (hnull : v.isNull = false) (hstorable : Storable shared v) {t : Option ℤ}
    (ht : t = some (s.cache.clock + ttl))
    (htells : Tells s.tables s.settings.hierarchyMaxDepth s.cache.space (Room shared left)
      (m'.set key v t)) :
    Answers shared left (getOrCompute key (some ttl) label compute) s (.ok v) (m'.set key v t) := by
  have hsame : ∃ m₁, m₁ = m' ∧
      Answers shared left (getOrCompute key (some ttl) label compute) s (.ok v) (m₁.set key v t) :=
    answers_getOrCompute_computed (P := (· = m')) h hnone httl
      (fun s' hk h' => ⟨m', rfl, hcompute s' hk h'⟩) hnull
      hstorable ht fun m₁ hm₁ _ => hm₁ ▸ htells
  obtain ⟨m₁, rfl, hanswer⟩ := hsame
  exact hanswer

theorem answers_getOrCompute_failed (h : Coherent shared left s m) (hnone : m key = none)
    {e : Failure} {P : View → Prop}
    (hcompute : ∀ s', Kept s s' → Coherent shared left s' m →
      ∃ m', P m' ∧ Answers shared left compute s' (.error e) m') :
    ∃ m', P m' ∧
      Answers shared left (getOrCompute key (some ttl) label compute) s (.error e) m' := by
  have hread := remembered_spec h.represents key label
  rw [View.value, hnone, Option.map_none, Option.getD_none] at hread
  obtain ⟨s₁, hrun₁, hk₁, h₁⟩ := answers_onCache h hread h.tells
  obtain ⟨m', hm', s₂, hrun₂, hk₂, h₂⟩ := hcompute s₁ hk₁ h₁
  refine ⟨m', hm', s₂, ?_, hk₁.trans hk₂, h₂⟩
  unfold getOrCompute
  rw [outcome_bind, hrun₁, andThen_ok, if_neg (by decide), outcome_bind, hrun₂, andThen_error]

theorem answers_getOrCompute_error (h : Coherent shared left s m) (hnone : m key = none)
    {e : Failure}
    (hcompute : ∀ s', Kept s s' → Coherent shared left s' m →
      Answers shared left compute s' (.error e) m') :
    Answers shared left (getOrCompute key (some ttl) label compute) s (.error e) m' := by
  have hsame : ∃ m₁, m₁ = m' ∧
      Answers shared left (getOrCompute key (some ttl) label compute) s (.error e) m₁ :=
    answers_getOrCompute_failed (P := (· = m')) h hnone fun s' hk h' => ⟨m', rfl, hcompute s' hk h'⟩
  obtain ⟨m₁, rfl, hanswer⟩ := hsame
  exact hanswer

end getOrCompute

/-! ### Roles -/

theorem answers_directRoleIds (h : Coherent shared left s m) (u st : ℤ) :
    Answers shared left (directRoleIds (.int u) (.int st)) s
      (if fits u ∧ fits st then .ok (s.tables.directRoles u st) else .error .range) m := by
  refine answers_outcome h ?_
  unfold directRoleIds
  rw [outcome_bind, outcome_askedAll_pair]
  split <;> rfl

/-- The graph of a store is that of its active edges, kept or not. -/
theorem answers_graph (h : Coherent shared left s m) (st : ℤ) :
    Answers shared left (graph (.int st)) s
    (if fits st then .ok (s.tables.graphOf st) else .error .range) m := by
  unfold graph Answers
  simp only [Value.isScalar, Bool.not_true, Bool.false_eq_true, if_false, outcome_bind,
    outcome_current, andThen_ok]
  cases hfind : s.graphs.find? (·.1.alike (.int st)) with
  | some kept =>
      obtain ⟨st', hfits, rfl⟩ := h.graphs kept (List.mem_of_find?_eq_some hfind)
      obtain rfl : st' = st := by simpa [Value.alike_int] using List.find?_some hfind
      rw [if_pos hfits]
      exact ⟨s, rfl, .refl s, h⟩
  | none =>
      rw [asked_int]
      by_cases hfits : fits st
      · rw [if_pos hfits, if_pos hfits]
        refine ⟨{ s with graphs := (.int st, s.tables.graphOf st) :: s.graphs }, rfl,
          ⟨rfl, rfl, rfl, .refl _⟩, ?_⟩
        refine { h with graphs := fun g hg => ?_ }
        rcases List.mem_cons.mp hg with rfl | hg
        · exact ⟨st, hfits, rfl⟩
        · exact h.graphs g hg
      · rw [if_neg hfits, if_neg hfits]
        exact ⟨s, rfl, .refl s, h⟩

theorem answers_lowerRoleIds (h : Coherent shared left s m) (role st : ℤ) :
    Answers shared left (lowerRoleIds (.int role) (.int st)) s
      (if fits st
        then .ok ((s.tables.graphOf st).descendants role (some s.settings.hierarchyMaxDepth))
        else .error .range) m := by
  have hgraph := answers_graph h st
  unfold lowerRoleIds
  split at hgraph
  · next hfits =>
      rw [if_pos hfits]
      refine answers_bind hgraph fun s₁ hkept h₁ => ?_
      rw [← hkept.settings]
      exact answers_outcome h₁ rfl
  · next hfits =>
      rw [if_neg hfits]
      exact answers_bind_error hgraph

theorem answers_rolesBelow {st : ℤ} (hst : fits st) (roles : List ℤ)
    (h : Coherent shared left s m) :
    Answers shared left (rolesBelow (.int st) roles) s
      (.ok (s.tables.below s.settings.hierarchyMaxDepth st roles)) m := by
  induction roles generalizing s with
  | nil => exact answers_pure h []
  | cons role roles ih =>
      have hlower := answers_lowerRoleIds h role st
      rw [if_pos hst] at hlower
      unfold rolesBelow
      refine answers_bind hlower fun s₁ hkept h₁ => ?_
      refine answers_bind (ih h₁) fun s₂ hkept' h₂ => ?_
      rw [hkept.settings, hkept.tables]
      exact answers_pure h₂ _

/-- The direct roles of a user in a store, and the other roles below them. -/
theorem answers_effectiveRoleIds (h : Coherent shared left s m) (u st : ℤ) :
    Answers shared left (effectiveRoleIds (.int u) (.int st)) s
      (if fits u ∧ fits st then
        let direct := s.tables.directRoles u st
        .ok (direct, ascendingInts
          ((s.tables.below s.settings.hierarchyMaxDepth st direct).filter (!direct.contains ·)))
      else .error .range) m := by
  have hdirect := answers_directRoleIds h u st
  unfold effectiveRoleIds
  split at hdirect
  · next hfits =>
      rw [if_pos hfits]
      refine answers_bind hdirect fun s₁ hkept h₁ => ?_
      refine answers_bind (answers_rolesBelow hfits.2 _ h₁) fun s₂ hkept' h₂ => ?_
      rw [hkept.settings, hkept.tables]
      exact answers_pure h₂ _
  · next hfits =>
      rw [if_neg hfits]
      exact answers_bind_error hdirect

/-! ### Permissions -/

/-- The permissions that the tables of a session give a user in a store. -/
def permissionsOf (s : Session) (user store : ℤ) : List String :=
  s.tables.permissionsIn s.settings.hierarchyMaxDepth user store

theorem Kept.permissionsOf {s s' : Session} (h : Kept s s') (user store : ℤ) :
    s'.permissionsOf user store = s.permissionsOf user store := by
  rw [Session.permissionsOf, Session.permissionsOf, h.tables, h.settings]

theorem nodup_permissionsOf (s : Session) (user store : ℤ) : (s.permissionsOf user store).Nodup :=
  (pairwise_ascending _).imp fun hlt => ne_of_lt hlt

theorem answers_workOutPermissions (h : Coherent shared left s m) (u st : ℤ) :
    Answers shared left (workOutPermissions (.int u) (.int st)) s
      (if fits u ∧ fits st then .ok (s.permissionsOf u st) else .error .range) m := by
  have hroles := answers_effectiveRoleIds h u st
  unfold workOutPermissions
  split at hroles
  · next hfits =>
      rw [if_pos hfits]
      refine answers_bind hroles fun s₁ hkept h₁ => ?_
      refine answers_outcome h₁ ?_
      rw [outcome_bind, outcome_current, andThen_ok, outcome_pure, hkept.tables]
      rfl
  · next hfits =>
      rw [if_neg hfits]
      exact answers_bind_error hroles

theorem storable_texts (names : List String) : Storable shared (Value.texts names) :=
  fun _ => (Value.plain_texts names).stable

theorem yields_currentPermissionsKey {c : Cache} (h : Represents shared c m) (u st : ℤ)
    (hcounter : ∀ p, m ((Key.epoch st).text c.space) = some p → ∃ n, p = (.int n, none))
    (hseeds : ∀ n, IsSeed c n → Countable shared n) :
    ∃ n, Stands c m ((Key.epoch st).text c.space) n ∧
      Yields shared (currentPermissionsKey (.int u) (.int st)) c
      ((Key.permissions u st n).text c.space)
        (m.set ((Key.epoch st).text c.space) (.int n) none) := by
  obtain ⟨n, hstands, hread⟩ := readCounter_spec h hcounter hseeds
  refine ⟨n, hstands, ?_⟩
  rw [Yields, ← outcome_storeEpoch] at hread
  unfold currentPermissionsKey
  refine yields_bind hread fun c₁ hsteady h₁ => ?_
  refine yields_bind (yields_get h₁) fun c₂ _ h₂ => ?_
  rw [hsteady.space, Key.text_permissions]
  exact yields_pure h₂ _

theorem currentPermissionsKey_spec (h : Coherent shared left s m) (u st : ℤ) :
    ∃ n, let m' := m.set ((Key.epoch st).text s.cache.space) (.int n) none
      Yields shared (currentPermissionsKey (.int u) (.int st)) s.cache
        ((Key.permissions u st n).text s.cache.space) m' ∧
      Tells s.tables s.settings.hierarchyMaxDepth s.cache.space (Room shared left) m' := by
  have hcounter : ∀ p, m ((Key.epoch st).text s.cache.space) = some p → ∃ n, p = (.int n, none) :=
    fun p hp => by
    obtain ⟨n, rfl, -⟩ := h.tells.epochs st p hp
    exact ⟨n, rfl⟩
  obtain ⟨n, hstands, hkey⟩ :=
    yields_currentPermissionsKey h.represents u st hcounter fun n hn => (h.seeds n hn).countable
  refine ⟨n, hkey, ?_⟩
  rcases hstands with hn | ⟨hnone, hseed⟩
  · obtain ⟨k, hk, hroom⟩ := h.tells.epochs st _ hn
    obtain rfl : n = k := by simpa using hk
    exact h.tells.epoch (.inl hn) hroom
  · exact h.tells.epoch (.inr hnone) (h.seeds n hseed)

/-- With a cache, the permissions of a user in a store are those that the tables say. -/
theorem answers_permissionMembers (h : Coherent shared left s m) (u st : ℤ) :
    ∃ m', Differ (Key.OfStore st) s.cache.space m m' ∧
      Answers shared left (permissionMembers true (.int u) (.int st)) s
      (if fits u ∧ fits st then .ok ((s.permissionsOf u st).map .text) else .error .range) m' := by
  obtain ⟨n, hkey, htells⟩ := currentPermissionsKey_spec h u st
  set space := s.cache.space
  set m₁ := m.set ((Key.epoch st).text space) (.int n) none with hm₁
  have hepoch : m₁ ((Key.epoch st).text space) = some (.int n, none) := View.set_same ..
  have hmoved : Differ (Key.OfStore st) space m m₁ :=
    differ_set (P := Key.OfStore st) (k := .epoch st) rfl rfl m _ _
  unfold permissionMembers
  simp only [if_true]
  have hask := answers_onCache h hkey htells
  -- What is remembered under the key of the present epoch is what the tables say.
  cases hp : m₁ ((Key.permissions u st n).text space) with
  | some p =>
      obtain ⟨hfits, k, hk, -, htrue⟩ := htells.permissions u st n p hp
      obtain rfl : n = k := by simpa [hepoch] using hk
      obtain ⟨v, t⟩ := p
      obtain rfl : v = Value.texts (s.permissionsOf u st) := htrue rfl
      refine ⟨m₁, hmoved, answers_bind hask fun s₁ hk₁ h₁ => answers_current ?_⟩
      rw [if_pos hfits]
      refine answers_bind (answers_getOrCompute_hit h₁ hp rfl) fun s₂ _ h₂ => ?_
      rw [Value.members_texts (nodup_permissionsOf s u st)]
      exact answers_outcome h₂ rfl
  | none =>
      by_cases hfits : fits u ∧ fits st
      · have hset :
            ∀ v t, Differ (Key.OfStore st) space m₁
            (m₁.set ((Key.permissions u st n).text space) v t) :=
          differ_set (P := Key.OfStore st) (k := .permissions u st n) rfl rfl m₁
        set t := some (s.cache.clock + s.settings.permissionsTtl.ttlSeconds)
        refine ⟨_, hmoved.trans (hset (Value.texts (s.permissionsOf u st)) t),
          answers_bind hask fun s₁ hk₁ h₁ => answers_current ?_⟩
        rw [if_pos hfits]
        have ht : t = some (s₁.cache.clock + s₁.settings.permissionsTtl.ttlSeconds) := by
          rw [hk₁.cache.clock, hk₁.settings]
        have hcompute : ∀ s₂, Kept s₁ s₂ → Coherent shared left s₂ m₁ → Answers shared left
            (do return Value.texts (← workOutPermissions (.int u) (.int st))) s₂
            (.ok (Value.texts (s.permissionsOf u st))) m₁ := by
          intro s₂ hk₂ h₂
          have hwork := answers_workOutPermissions h₂ u st
          rw [if_pos hfits, (hk₁.trans hk₂).permissionsOf] at hwork
          exact answers_bind hwork fun s₃ _ h₃ => answers_pure h₃ _
        refine answers_bind (answers_getOrCompute_miss h₁ hp (ttlSeconds_pos _) hcompute rfl
          (storable_texts (s.permissionsOf u st)) ht ?_) fun s₂ _ h₂ => ?_
        · rw [hk₁.tables, hk₁.settings, hk₁.cache.space]
          exact htells.setPermissions hfits hepoch t
        · rw [Value.members_texts (nodup_permissionsOf s u st)]
          exact answers_outcome h₂ rfl
      · refine ⟨m₁, hmoved, answers_bind hask fun s₁ hk₁ h₁ => answers_current ?_⟩
        rw [if_neg hfits]
        refine answers_bind_error (answers_getOrCompute_error h₁ hp fun s₂ hk₂ h₂ => ?_)
        have hwork := answers_workOutPermissions h₂ u st
        rw [if_neg hfits] at hwork
        exact answers_bind_error hwork

/-- With a cache, a user has in a store the permissions that the tables say. -/
theorem answers_effectivePermissions (h : Coherent shared left s m) (u st : ℤ) :
    ∃ m', Differ (Key.OfStore st) s.cache.space m m' ∧
      Answers shared left (effectivePermissions true (.int u) (.int st)) s
      (if fits u ∧ fits st then .ok (s.permissionsOf u st) else .error .range) m' := by
  obtain ⟨m', hmoved, hmembers⟩ := answers_permissionMembers h u st
  refine ⟨m', hmoved, ?_⟩
  unfold effectivePermissions
  split at hmembers
  · next hfits =>
      rw [if_pos hfits]
      refine answers_bind hmembers fun s₁ _ h₁ => ?_
      rw [Value.textsAmong_texts]
      exact answers_pure h₁ _
  · next hfits =>
      rw [if_neg hfits]
      exact answers_bind_error hmembers

theorem answers_hasPermission (h : Coherent shared left s m) (u st : ℤ) (name : String) :
    ∃ m', Differ (Key.OfStore st) s.cache.space m m' ∧
      Answers shared left (hasPermission true (.int u) (.text name) (.int st)) s
      (if fits u ∧ fits st then .ok ((s.permissionsOf u st).contains name) else .error .range)
        m' := by
  obtain ⟨m', hmoved, hmembers⟩ := answers_permissionMembers h u st
  refine ⟨m', hmoved, ?_⟩
  unfold hasPermission
  split at hmembers
  · next hfits =>
      rw [if_pos hfits]
      refine answers_bind hmembers fun s₁ _ h₁ => ?_
      rw [Value.isAmong_texts]
      exact answers_pure h₁ _
  · next hfits =>
      rw [if_neg hfits]
      exact answers_bind_error hmembers

/-! ### All stores -/

theorem answers_workOutAllStores (h : Coherent shared left s m) (u : ℤ) :
    Answers shared left (workOutAllStores (.int u)) s
      (if fits u ∨
        s.tables.hasActiveStore = false then .ok (s.tables.coversStores u)
        else .error .range) m := by
  unfold workOutAllStores
  refine answers_current ?_
  unfold Tables.coversStores
  cases hactive : s.tables.hasActiveStore with
  | false =>
      simp only [Bool.false_eq_true, if_false, or_true, if_true]
      exact answers_pure h true
  | true =>
      refine answers_outcome h ?_
      by_cases hfits : fits u
      · simp [asked_int, hfits]
      · simp [asked_int, hfits]

theorem currentAllStoresKey_spec {c : Cache} (h : Represents shared c m) (u : ℤ) :
    Yields shared (currentAllStoresKey (.int u)) c ((Key.allStores u).text c.space) m := by
  unfold currentAllStoresKey
  refine yields_bind (yields_get h) fun c' _ hc => ?_
  rw [Key.text_allStores]
  exact yields_pure hc _

/-- With a cache, a user is assigned to all active stores when the tables say so. -/
theorem answers_hasAllStores (h : Coherent shared left s m) (u : ℤ) :
    ∃ m', Differ (· = .allStores u) s.cache.space m m' ∧
      Answers shared left (hasAllStores true (.int u)) s
      (if fits u ∨
        s.tables.hasActiveStore = false then .ok (s.tables.coversStores u)
        else .error .range) m' := by
  have hask := answers_onCache h (currentAllStoresKey_spec h.represents u) h.tells
  set space := s.cache.space
  unfold hasAllStores
  simp only [if_true]
  cases hp : m ((Key.allStores u).text space) with
  | some p =>
      obtain ⟨hfits, htrue⟩ := h.tells.allStores u p hp
      obtain ⟨v, t⟩ := p
      obtain rfl : v = .bool (s.tables.coversStores u) := htrue
      refine ⟨m, .refl _ space m, answers_bind hask fun s₁ hk₁ h₁ => answers_current ?_⟩
      rw [if_pos hfits]
      exact answers_bind (answers_getOrCompute_hit h₁ hp rfl) fun s₂ _ h₂ => answers_pure h₂ _
  | none =>
      by_cases hfits : fits u ∨ s.tables.hasActiveStore = false
      · have hset :
            ∀ v t, Differ (· = .allStores u) space m (m.set ((Key.allStores u).text space) v t) :=
          differ_set (P := (· = .allStores u)) rfl rfl m
        set t := some (s.cache.clock + s.settings.allStoresTtl.ttlSeconds)
        refine ⟨_, hset (.bool (s.tables.coversStores u)) t,
          answers_bind hask fun s₁ hk₁ h₁ => answers_current ?_⟩
        rw [if_pos hfits]
        have ht : t = some (s₁.cache.clock + s₁.settings.allStoresTtl.ttlSeconds) := by
          rw [hk₁.cache.clock, hk₁.settings]
        have hcompute : ∀ s₂, Kept s₁ s₂ → Coherent shared left s₂ m → Answers shared left
            (do return Value.bool (← workOutAllStores (.int u))) s₂
              (.ok (.bool (s.tables.coversStores u))) m := by
          intro s₂ hk₂ h₂
          have hwork := answers_workOutAllStores h₂ u
          rw [(hk₁.trans hk₂).tables, if_pos hfits] at hwork
          exact answers_bind hwork fun s₃ _ h₃ => answers_pure h₃ _
        refine answers_bind (answers_getOrCompute_miss h₁ hp (ttlSeconds_pos _) hcompute rfl
          (fun _ => (Value.Plain.bool _).stable) ht ?_) fun s₂ _ h₂ => answers_pure h₂ _
        rw [hk₁.tables, hk₁.settings, hk₁.cache.space]
        exact h.tells.setAllStores hfits t
      · refine ⟨m, .refl _ space m, answers_bind hask fun s₁ hk₁ h₁ => answers_current ?_⟩
        rw [if_neg hfits]
        refine answers_bind_error (answers_getOrCompute_error h₁ hp fun s₂ hk₂ h₂ => ?_)
        have hwork := answers_workOutAllStores h₂ u
        rw [(hk₁.trans hk₂).tables, if_neg hfits] at hwork
        exact answers_bind_error hwork

end Session
end AccessControl
