import AccessControl.Proofs.Session.Holdings
import Mathlib

/-! # Sessions side by side

Several sessions may work over one database and one cache.  A change of the hierarchy through
one of them raises the epoch of the store for all, but only the session itself forgets the graph
that it keeps: another one that has looked at the store goes on with the old graph, and what it
works out from that is remembered under the new epoch (`permissions_outdated`).  As long as no
session asks about a store whose graph it keeps from before a change, every question is answered
from the edges of the moment, whoever changed them and whoever asked before, and nothing else is
remembered (`permissions_peers`).

What is asked about a store goes the same way in two sessions that stand side by side, which is to
say over the same tables and cache and with the same graph of the store (`Agreeing`).  So a
session that keeps the present graph does what a session without any graphs does, and of that the
cache tells the truth. -/

namespace AccessControl
namespace Session

open Cache Database

variable {ι : Type} {shared : Bool} {left : ℕ} {st : ℤ} {s s' : Session} {m : View} {α β : Type}

/-! ### Sessions that stand side by side -/

/-- Two sessions work over the same tables and the same cache, and take the same graph for a
store. -/
structure Beside (st : ℤ) (s s' : Session) : Prop where
  settings : s'.settings = s.settings
  tables : s'.tables = s.tables
  saved : s'.saved = s.saved
  cache : s'.cache = s.cache
  graph : s'.graphAt st = s.graphAt st

theorem Beside.twins (h : Beside st s s') : Twins st s s' :=
  ⟨by rw [h.settings], h.tables ▸ .refl st _, h.graph⟩

theorem Beside.looks {s₁ s₁' : Session} (h : Beside st s s') (hs : Looks st s s₁)
    (hs' : Looks st s' s₁') :
    Beside st s₁ s₁' where
  settings := by rw [hs.settings, hs'.settings, h.settings]
  tables := by rw [hs.tables, hs'.tables, h.tables]
  saved := by rw [hs.saved, hs'.saved, h.saved]
  cache := by rw [hs.cache, hs'.cache, h.cache]
  graph := by rw [hs.graph, hs'.graph, h.graph]

/-- An operation gives the same in sessions that stand side by side, and leaves them so. -/
def Agreeing (st : ℤ) (operation : SessionM α) : Prop := ∀ ⦃s s'⦄, Beside st s s' →
  (outcome operation s').1 = (outcome operation s).1 ∧
    Beside st (outcome operation s).2 (outcome operation s').2

theorem Local.agreeing {operation : SessionM α} (h : Local st operation) : Agreeing st operation :=
  fun s s' hbeside =>
  ⟨h.agrees hbeside.twins, hbeside.looks (h.looks s) (h.looks s')⟩

theorem agreeing_pure (a : α) : Agreeing st (pure a : SessionM α) := fun _ _ h => ⟨rfl, h⟩

theorem agreeing_lift (x : Except Failure α) : Agreeing st (liftM x : SessionM α) :=
  fun _ _ h => ⟨rfl, h⟩

theorem agreeing_bind {x : SessionM α} {f : α → SessionM β} (hx : Agreeing st x)
    (hf : ∀ a, Agreeing st (f a)) :
    Agreeing st (x >>= f) := by
  intro s s' h
  obtain ⟨hresult, hbeside⟩ := hx h
  rw [outcome_bind, outcome_bind]
  generalize outcome x s = first at hresult hbeside
  generalize outcome x s' = first' at hresult hbeside
  obtain ⟨r, s₁⟩ := first
  obtain ⟨r', s₁'⟩ := first'
  obtain rfl : r' = r := hresult
  cases r' with
  | error e => exact ⟨rfl, hbeside⟩
  | ok a => exact hf a hbeside

theorem agreeing_current {f : Session → SessionM β} (hf : ∀ s, Agreeing st (f s))
    (hsame : ∀ ⦃s s'⦄, Beside st s s' → f s' = f s) : Agreeing st (current >>= f) := by
  intro s s' h
  rw [outcome_bind, outcome_bind, outcome_current, outcome_current, andThen_ok, andThen_ok, hsame h]
  exact hf s h

theorem agreeing_onCache (operation : CacheM α) : Agreeing st (liftM operation : SessionM α) := by
  intro s s' h
  rw [outcome_onCache, outcome_onCache, h.cache]
  exact ⟨rfl, h.settings, h.tables, h.saved, rfl, h.graph⟩

theorem agreeing_getOrCompute (key : String) (ttl : Option ℤ) (label : String)
    {compute : SessionM Value} (h : Agreeing st compute) :
    Agreeing st (getOrCompute key ttl label compute) := by
  refine agreeing_bind (agreeing_onCache _) fun found => ?_
  split
  · exact agreeing_pure _
  · exact agreeing_bind h fun value => agreeing_bind (agreeing_onCache _) fun _ => agreeing_pure _

theorem agreeing_permissionMembers (cached : Bool) (u : ℤ) :
    Agreeing st (permissionMembers cached (.int u) (.int st)) := by
  have hwork : Agreeing st (workOutPermissions (.int u) (.int st)) :=
    (local_workOutPermissions u).agreeing
  unfold permissionMembers
  cases cached with
  | false => exact agreeing_bind hwork fun _ => agreeing_pure _
  | true =>
      simp only [if_true]
      refine agreeing_bind (agreeing_onCache _) fun key => ?_
      refine agreeing_current (fun s => agreeing_bind (agreeing_getOrCompute _ _ _ ?_) fun names =>
        ?_) fun s s' h => ?_
      · exact agreeing_bind hwork fun _ => agreeing_pure _
      · exact agreeing_lift _
      · rw [h.settings]

theorem agreeing_effectivePermissions (cached : Bool) (u : ℤ) :
    Agreeing st (effectivePermissions cached (.int u) (.int st)) :=
  agreeing_bind (agreeing_permissionMembers cached u) fun _ => agreeing_pure _

/-! ### Sessions without graphs -/

/-- The session without the graphs that it keeps. -/
def bare (s : Session) : Session := { s with graphs := [] }

/-- The session takes for a store the graph that the tables have now. -/
def UpToDate (s : Session) (st : ℤ) : Prop := s.graphAt st = s.bare.graphAt st

theorem Coherent.bare (h : Coherent shared left s m) (hsettings : s'.settings = s.settings)
    (htables : s'.tables = s.tables) (hcache : s'.cache = s.cache) :
    Coherent shared left s'.bare m where
  represents := hcache ▸ h.represents
  seeds := hcache ▸ h.seeds
  graphs := fun g hg => by cases hg
  edges := htables ▸ h.edges
  assignments := htables ▸ h.assignments
  tells := by
    change Tells s'.tables s'.settings.hierarchyMaxDepth s'.cache.space _ m
    rw [htables, hsettings, hcache]
    exact h.tells

theorem Noted.bare (h : Noted s s') : Noted s.bare s'.bare :=
  ⟨h.settings, h.tables, h.saved, rfl, h.cache⟩

theorem bare_afterEdges (cached : Bool) (st : ℤ) (t : Tables) (s : Session) :
    (afterEdges cached st t s).bare = afterEdges cached st t s.bare := by
  unfold afterEdges hierarchyChanged
  simp only [outcome_bind, outcome_modifyThe, andThen_ok]
  cases cached with
  | false => rfl
  | true =>
    simp only [if_true, outcome_bind, outcome_onCache, Session.bare]
    cases (outcome (bumpStoreEpoch (.int st)) s.cache).1 with
    | ok epoch => rfl
    | error e => rfl

theorem EdgeStep.bare {cached : Bool} (h : EdgeStep cached st s s') :
    EdgeStep cached st s.bare s'.bare := by
  rcases h with hnoted | ⟨t, hchange, hnoted⟩
  · exact .inl hnoted.bare
  · refine .inr ⟨t, hchange, ?_⟩
    rw [← bare_afterEdges]
    exact hnoted.bare

/-! ### Held permissions -/

/-- What the cache holds of the permissions of a user in a store under its present
epoch; null for nothing. -/
def heldPermissions (user store : ℤ) : CacheM Value := do
  Cache.read (← currentPermissionsKey (.int user) (.int store))

/-- The session takes for a store the graph that the tables have now, or the cache
holds what it asks for. -/
def Informed (s : Session) (user store : ℤ) : Prop :=
  s.UpToDate store ∨ (outcome (heldPermissions user store) s.cache).1 ≠ .ok .null

/-- The cache holds nothing, or the permissions that the tables give; these are answered then,
whatever graphs are kept. -/
theorem heldPermissions_cases (h : Coherent shared left s.bare m) (u st : ℤ) :
    (outcome (heldPermissions u st) s.cache).1 = .ok .null ∨
      (outcome (heldPermissions u st) s.cache).1 = .ok (Value.texts (s.permissionsOf u st)) ∧
        (fits u ∧ fits st) ∧
        ∃ s' m', outcome (effectivePermissions true (.int u) (.int st)) s =
          (.ok (s.permissionsOf u st), s') ∧
          Kept s s' ∧ Coherent shared left s'.bare m' := by
  obtain ⟨n, hkey, htells⟩ := currentPermissionsKey_spec h u st
  set m₁ := m.set ((Key.epoch st).text s.cache.space) (.int n) none with hm₁
  obtain ⟨c, hrun, hsteady, hrep⟩ := outcome_yields (s := s) hkey
  have h₁ : Coherent shared left (s.withCache c).bare m₁ :=
    (h.withCache hsteady hrep htells).bare rfl rfl rfl
  have hread : (outcome (heldPermissions u st) s.cache).1 =
      .ok (m₁.value ((Key.permissions u st n).text s.cache.space)) := by
    obtain ⟨c₁, hrun₁, -, hrep₁⟩ := hkey
    obtain ⟨c₂, hrun₂, -⟩ := read_spec hrep₁ ((Key.permissions u st n).text s.cache.space)
    unfold heldPermissions
    rw [outcome_bind, show outcome _ s.cache = _ from hrun₁, andThen_ok]
    exact congrArg Prod.fst hrun₂
  rw [hread, View.value]
  cases hp : m₁ ((Key.permissions u st n).text s.cache.space) with
  | none => exact .inl rfl
  | some p =>
    obtain ⟨hfits, k, hk, -, htrue⟩ := htells.permissions u st n p hp
    obtain rfl : n = k := by simpa [hm₁, View.set_same] using hk
    have hvalue : p.1 = Value.texts (s.permissionsOf u st) := htrue rfl
    have hfound : ∃ c₂, outcome (getOrCompute ((Key.permissions u st n).text s.cache.space)
          (some s.settings.permissionsTtl.ttlSeconds) "effective_permissions" do
            return Value.texts (← workOutPermissions (.int u) (.int st))) (s.withCache c) =
          (.ok p.1, (s.withCache c).withCache c₂) ∧ Steady (s.withCache c).cache c₂ ∧
            Represents shared c₂ m₁ :=
      outcome_getOrCompute_hit (s := s.withCache c) hrep hp (by rw [hvalue]; rfl)
    obtain ⟨c₂, hrun₂, hsteady₂, hrep₂⟩ := hfound
    refine .inr ⟨congrArg Except.ok hvalue, hfits, (s.withCache c).withCache c₂, m₁, ?_, ?_,
      (h₁.withCache hsteady₂ hrep₂ h₁.tells).bare rfl rfl rfl⟩
    · unfold effectivePermissions permissionMembers
      simp only [if_true]
      rw [outcome_bind, outcome_bind, hrun, andThen_ok, outcome_bind, outcome_current, andThen_ok,
        outcome_bind, show (s.withCache c).settings = s.settings from rfl,
        show s.bare.cache.space = s.cache.space from rfl, hrun₂, andThen_ok, hvalue, outcome_lift,
        Value.members_texts (nodup_permissionsOf s u st), andThen_ok, outcome_pure,
        Value.textsAmong_texts]
    · exact (consulted_withCache hsteady).kept.trans (consulted_withCache hsteady₂).kept

/-! ### Steps -/

/-- Something that one of the sessions does, or time that goes by for all. -/
inductive PeerStep (ι : Type) where
  | change (session : ι) (call : HierarchyCall)
  | ask (session : ι) (user store : ℤ)
  | advance (seconds : ℕ)

/-- The session when another one has gone on: the tables that are saved and the cache
are those of the other. -/
def seeing (s s' : Session) : Session :=
  { s with tables := s'.saved, saved := s'.saved, cache := s'.cache }

variable {w : ι → Session}

/-- All sessions work over the saved tables and the cache of a session. -/
structure Gathered (s : Session) (w : ι → Session) : Prop where
  settings : ∀ i, (w i).settings = s.settings
  tables : ∀ i, (w i).tables = s.tables
  saved : ∀ i, (w i).saved = s.tables
  cache : ∀ i, (w i).cache = s.cache

theorem Gathered.coherent (h : Gathered s w) (hs : Coherent shared left s.bare m) (i : ι) :
    Coherent shared left (w i).bare m := hs.bare (h.settings i) (h.tables i) (h.cache i)

/-- A question of a session that is up to date is answered from the tables, and what is
remembered stays true. -/
theorem coherent_askUpToDate (hs : Coherent shared left s.bare m) (hup : s.UpToDate st) (u : ℤ) :
    ∃ s' m', outcome (effectivePermissions true (.int u) (.int st)) s =
        (if fits u ∧ fits st then .ok (s.permissionsOf u st) else .error .range, s') ∧
      Kept s s' ∧ Coherent shared left s'.bare m' := by
  obtain ⟨m', -, s₁, hrun, hkept, h₁⟩ := answers_effectivePermissions hs u st
  -- The session does what it does without its graphs.
  have hbeside : Beside st s.bare s := ⟨rfl, rfl, rfl, rfl, hup⟩
  obtain ⟨hresult, hafter⟩ := agreeing_effectivePermissions true u hbeside
  rw [hrun] at hresult hafter
  refine ⟨(outcome (effectivePermissions true (.int u) (.int st)) s).2, m', Prod.ext hresult rfl,
    ⟨?_, ?_, ?_, ?_⟩, h₁.bare hafter.settings hafter.tables hafter.cache⟩
  · rw [hafter.settings, hkept.settings]
    rfl
  · rw [hafter.tables, hkept.tables]
    rfl
  · rw [hafter.saved, hkept.saved]
    rfl
  · rw [hafter.cache]
    exact hkept.cache

theorem coherent_ask (hs : Coherent shared left s.bare m) {u : ℤ} (hinformed : s.Informed u st) :
    ∃ s' m', outcome (effectivePermissions true (.int u) (.int st)) s =
        (if fits u ∧ fits st then .ok (s.permissionsOf u st) else .error .range, s') ∧
      Kept s s' ∧ Coherent shared left s'.bare m' := by
  rcases hinformed with hup | hheld
  · exact coherent_askUpToDate hs hup u
  · obtain hnull | ⟨-, hfits, hanswer⟩ := heldPermissions_cases hs u st
    · exact absurd hnull hheld
    · rw [if_pos hfits]
      exact hanswer

theorem coherent_change (hs : Coherent shared (left + 1) s.bare m) (call : HierarchyCall) :
    ∃ m', (afterHierarchyCall true call s).settings = s.settings ∧
      Coherent shared left (afterHierarchyCall true call s).bare m' := by
  obtain ⟨hlater, m', -, h'⟩ := coherent_edgeStep hs (step_hierarchyCall true call s).bare
  exact ⟨m', hlater.settings, h'⟩

variable [DecidableEq ι]

/-- The sessions when one of them has gone on. -/
def withPeer (w : ι → Session) (i : ι) (s' : Session) : ι → Session :=
  fun j => if j = i then s' else (w j).seeing s'

theorem Gathered.withPeer (h : Gathered s w) (i : ι) (hsettings : s'.settings = s.settings)
    (hsaved : s'.saved = s'.tables) :
    Gathered s' (withPeer w i s') := by
  have hsame : ∀ j, (Session.withPeer w i s' j).settings = s'.settings ∧
      (Session.withPeer w i s' j).tables = s'.tables ∧
      (Session.withPeer w i s' j).saved = s'.tables ∧
        (Session.withPeer w i s' j).cache = s'.cache := by
    intro j
    unfold Session.withPeer
    split
    · exact ⟨rfl, rfl, hsaved, rfl⟩
    · exact ⟨(h.settings j).trans hsettings.symm, hsaved, hsaved, rfl⟩
  exact ⟨fun j => (hsame j).1, fun j => (hsame j).2.1, fun j => (hsame j).2.2.1,
    fun j => (hsame j).2.2.2⟩

/-- The sessions after a step.  A change is saved at once. -/
def afterPeerStep (w : ι → Session) : PeerStep ι → ι → Session
  | .change i call => withPeer w i (afterHierarchyCall true call (w i)).commit
  | .ask i user store =>
      withPeer w i (outcome (effectivePermissions true (.int user) (.int store)) (w i)).2
  | .advance seconds => fun j => (w j).advance seconds

/-- Whoever asks for permissions in a store that the cache does not hold takes the graph
that the store has now. -/
def CarefulPeers : (ι → Session) → List (PeerStep ι) → Prop
  | _, [] => True
  | w, step :: steps =>
    (∀ i user store, step = .ask i user store → (w i).Informed user store) ∧
      CarefulPeers (afterPeerStep w step) steps

theorem gathered_step (h : Gathered s w) (hs : Coherent shared (left + 1) s.bare m)
    (step : PeerStep ι)
    (hcareful : ∀ i user store, step = .ask i user store → (w i).Informed user store) :
    ∃ s' m', Gathered s' (afterPeerStep w step) ∧ Coherent shared left s'.bare m' ∧
      s'.settings = s.settings := by
  cases step with
  | change i call =>
    obtain ⟨m', hsettings, h'⟩ := coherent_change (h.coherent hs i) call
    rw [h.settings i] at hsettings
    exact ⟨_, m', h.withPeer i hsettings rfl, h'.bare rfl rfl rfl, hsettings⟩
  | ask i user store =>
    obtain ⟨s', m', hrun, hkept, h'⟩ :=
      coherent_ask (h.coherent hs i).fewer (hcareful i user store rfl)
    have hsettings := hkept.settings.trans (h.settings i)
    refine ⟨s', m', ?_, h', hsettings⟩
    have hafter : afterPeerStep w (.ask i user store) = Session.withPeer w i s' := by
      rw [afterPeerStep, hrun]
    rw [hafter]
    exact h.withPeer i hsettings (by rw [hkept.saved, hkept.tables, h.saved, h.tables])
  | advance seconds =>
    refine ⟨s.advance seconds, _, ⟨h.settings, h.tables, h.saved, fun i => ?_⟩,
      (coherent_advance hs.fewer seconds).bare rfl rfl rfl, rfl⟩
    change ({ (w i).cache with clock := (w i).cache.clock + seconds } : Cache) = _
    rw [h.cache i]
    rfl

theorem gathered_run (steps : List (PeerStep ι)) (h : Gathered s w)
    (hs : Coherent shared steps.length s.bare m) (hcareful : CarefulPeers w steps) :
    ∃ s' m', Gathered s' (steps.foldl afterPeerStep w) ∧ Coherent shared 0 s'.bare m' ∧
      s'.settings = s.settings := by
  induction steps generalizing s w m with
  | nil => exact ⟨s, m, h, hs, rfl⟩
  | cons step steps ih =>
    obtain ⟨s₁, m₁, h₁, hs₁, hsettings₁⟩ := gathered_step h hs step hcareful.1
    obtain ⟨s₂, m₂, h₂, hs₂, hsettings₂⟩ := ih h₁ hs₁ hcareful.2
    exact ⟨s₂, m₂, h₂, hs₂, hsettings₂.trans hsettings₁⟩

/-- Sessions that begin over one database and one cache change hierarchies, each change being saved
at once, and ask for permissions, in any order.  If none of them asks about a store whose graph it
keeps from before a change, then a question of a session to which this applies is answered with the
permissions that the saved edges of the moment give, and whatever the cache holds under the present
epoch of a store are these permissions. -/
theorem permissions_peers (s : Session) (steps : List (PeerStep ι))
    (hs : s.Fresh shared steps.length) (hsaved : s.saved = s.tables)
    (hcareful : CarefulPeers (fun _ => s) steps) (i : ι) {u st : ℤ} (hu : fits u) (hst : fits st) :
    let s' := steps.foldl afterPeerStep (fun _ => s) i
    ∃ names : List String,
      (∀ name, name ∈ names ↔ s'.saved.Grants s.settings.hierarchyMaxDepth.toNat u st name) ∧
      (s'.Informed u st →
        (outcome (effectivePermissions true (.int u) (.int st)) s').1 = .ok names) ∧
      ((outcome (heldPermissions u st) s'.cache).1 = .ok .null ∨
        (outcome (heldPermissions u st) s'.cache).1 = .ok (Value.texts names)) := by
  intro s'
  have hstart : Gathered s fun _ : ι => s :=
    ⟨fun _ => rfl, fun _ => rfl, fun _ => hsaved, fun _ => rfl⟩
  obtain ⟨b, m, h, hb, hsettings⟩ :=
    gathered_run steps hstart ((coherent_fresh hs).bare rfl rfl rfl) hcareful
  have hi : Coherent shared 0 s'.bare m := h.coherent hb i
  refine ⟨s'.permissionsOf u st, fun name => ?_, fun hinformed => ?_,
    (heldPermissions_cases hi u st).imp_right And.left⟩
  · rw [permissionsOf, Tables.mem_permissionsIn, h.saved i, h.tables i, h.settings i, hsettings]
  · obtain ⟨s₁, m', hrun, -⟩ := coherent_ask hi hinformed
    rw [if_pos ⟨hu, hst⟩] at hrun
    exact congrArg Prod.fst hrun

/-- The store with the user at its head, and the head above the staff. -/
def headedStore : Session :=
  let tables : Tables :=
    { oneStore.tables with
      assignments := [⟨1, 1, 1, 1, .null, true⟩], edges := [⟨1, 1, 2, 1, .null, true⟩] }
  { oneStore with tables := tables, saved := tables }

/-- One session asks.  Another one takes the head from above the staff, and asks before the
first one does so again. -/
def askedBehind : List (PeerStep Bool) :=
  [.ask true 1 1, .change false (.remove 1 2 1), .ask false 1 1, .advance 5]

theorem permissions_peers_askedBehind :
    let s' := askedBehind.foldl afterPeerStep (fun _ => headedStore) true
    (outcome (effectivePermissions true (.int 1) (.int 1)) s').1.toOption = some [] ∧
      ∃ names : List String, (∀ name, name ∈ names ↔ s'.saved.Grants 16 1 1 name) ∧
        (outcome (effectivePermissions true (.int 1) (.int 1)) s').1 = .ok names ∧
        ((outcome (heldPermissions 1 1) s'.cache).1 = .ok .null ∨
          (outcome (heldPermissions 1 1) s'.cache).1 = .ok (Value.texts names)) := by
  have hfresh : headedStore.Fresh false askedBehind.length :=
    fresh_memory (s := headedStore) rfl rfl (List.nodup_singleton _) (List.nodup_singleton _) _
  -- Each session first asks while it keeps no graph.
  have hbare : ∀ s : Session, s.graphs = [] → s.UpToDate 1 := fun s hs => by
    rw [UpToDate, bare, ← hs]
  have hcareful : CarefulPeers (fun _ => headedStore) askedBehind := by
    refine ⟨fun i u st heq => ?_, fun i u st heq => (by cases heq), fun i u st heq => ?_,
      fun i u st heq => (by cases heq), trivial⟩
    · cases heq
      exact .inl (hbare _ rfl)
    · cases heq
      exact .inl (hbare _ (List.isEmpty_iff.mp (by decide +kernel)))
  -- The first session keeps the old graph, but what it asks for is held.
  have hheld : (outcome (heldPermissions 1 1)
      (askedBehind.foldl afterPeerStep (fun _ => headedStore) true).cache).1.toOption.map
        (·.isNull) = some false := by
    decide +kernel
  have hone : fits 1 := by decide
  obtain ⟨names, hnames, hanswer, hrest⟩ :=
    permissions_peers headedStore askedBehind hfresh rfl hcareful true hone hone
  refine ⟨by decide +kernel, names, hnames, hanswer (.inr fun hnull => ?_), hrest⟩
  rw [hnull] at hheld
  cases hheld

/-- A session asks, another one takes the head from above the staff, and then the first one asks
again.  The permissions of the staff are still given to the head, by the first session and after
that by the other one, though the saved edges do not give them. -/
theorem permissions_outdated :
    let w :=
  [PeerStep.ask true 1 1, .change false (.remove 1 2 1)].foldl afterPeerStep fun _ => headedStore
    ¬(w true).saved.Grants 16 1 1 "orders.read" ∧
      (outcome (effectivePermissions true (.int 1) (.int 1)) (w true)).1.toOption =
        some ["orders.read"] ∧
      (outcome (effectivePermissions true (.int 1) (.int 1))
        (afterPeerStep w (.ask true 1 1) false)).1.toOption =
        some ["orders.read"] := by
  refine ⟨fun hgrants => ?_, by decide +kernel, by decide +kernel⟩
  have hnone := (@Tables.mem_permissionsIn _ 16 _ _ _).mpr hgrants
  revert hnone
  decide +kernel

end Session
end AccessControl
