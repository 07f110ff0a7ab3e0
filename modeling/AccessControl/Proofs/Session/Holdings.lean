import AccessControl.Proofs.Session.Lookups
import AccessControl.Proofs.Session.Twins
import Mathlib

/-! # What a cache may hold

Whether or not it is true of the tables, what a cache holds has the form that its key asks for
(`Fitting`): a counter, names of permissions, an answer about all stores, rules that were
restored from sound ones, a verdict that can be read.  A session is `Orderly` when its cache
holds such entries only and its rows have numbers of their own, whatever graphs it keeps.  Then
the permissions of a user in a store are the remembered ones or those that are worked out
(`outcome_permissionMembers`), and a question is never refused but for a number that the
database cannot hold. -/

namespace AccessControl

open Database Cache

namespace Session

variable {shared : Bool} {left : ℕ} {space : String} {s s' : Session} {m m' : View} {α β : Type}

/-! ### Entries -/

/-- A rule that is restored from a sound stored one, whose number the back end can keep. -/
def Served (shared : Bool) (rule : Rule) : Prop :=
  ∃ row : RuleRow, row.Sound ∧ Countable shared row.id ∧ row.restored = .ok rule

/-- A value holds rules that are restored from sound ones. -/
def HoldsServed (shared : Bool) (v : Value) : Prop :=
  v.isNull = false ∧ ∃ rules, Tables.readPayload v = .ok rules ∧ ∀ rule ∈ rules, Served shared rule

/-- A value holds a verdict. -/
def HoldsVerdict (v : Value) : Prop := v.isNull = false ∧ ∃ verdict, Verdict.read v = .ok verdict

/-- What may be held under a key, and until when, whatever the tables are. -/
def Fitting (shared : Bool) (left : ℕ) : Key → Value × Option ℤ → Prop
  | .version, p => ∃ n, p = (.int n, none) ∧ Room shared left n
  | .epoch _, p => ∃ n, p = (.int n, none) ∧ Room shared left n
  | .permissions _ _ _, p => ∃ names : List String, names.Nodup ∧ p.1 = Value.texts names
  | .allStores _, p => ∃ covered, p.1 = .bool covered
  | .rules _ _, p => HoldsServed shared p.1
  | .decision _ _, p => HoldsVerdict p.1

theorem Fitting.mono {k : Key} {p : Value × Option ℤ} (h : Fitting shared left k p) {left' : ℕ}
    (hle : left' ≤ left) :
    Fitting shared left' k p := by
  cases k with
  | version =>
      obtain ⟨n, hn, hroom⟩ := h
      exact ⟨n, hn, hroom.mono hle⟩
  | epoch st =>
      obtain ⟨n, hn, hroom⟩ := h
      exact ⟨n, hn, hroom.mono hle⟩
  | _ => exact h

theorem Fitting.congr {k l : Key} {p : Value × Option ℤ} (h : Fitting shared left k p)
    (htext : k.text space = l.text space) : Fitting shared left l p := by
  have hparts := Key.parts_of_text htext
  cases k <;> cases l <;>
    simp only [Key.parts, List.cons.injEq, reduceCtorEq, String.reduceEq, and_true, true_and,
    false_and, and_false] at hparts <;> exact h

/-- Under every key there is what fits it, and permissions stand under the epoch of their store. -/
structure Holds (shared : Bool) (left : ℕ) (space : String) (m : View) : Prop where
  fitting : ∀ (k : Key) p, m (k.text space) = some p → Fitting shared left k p
  epochs : ∀ u st e p, m ((Key.permissions u st e).text space) = some p →
    ∃ n, m ((Key.epoch st).text space) = some (.int n, none)

namespace Holds

theorem empty : Holds shared left space fun _ => none where
  fitting k p hp := by cases hp
  epochs u st e p hp := by cases hp

theorem mono (h : Holds shared left space m) {left' : ℕ} (hle : left' ≤ left) :
    Holds shared left' space m where
  fitting k p hp := (h.fitting k p hp).mono hle
  epochs := h.epochs

theorem epoch (h : Holds shared left space m) (st : ℤ) :
    ∀ p, m ((Key.epoch st).text space) = some p → ∃ n, p = (.int n, none) := by
  intro p hp
  obtain ⟨n, hn, -⟩ := h.fitting (.epoch st) p hp
  exact ⟨n, hn⟩

theorem version (h : Holds shared left space m) :
    ∀ p, m (Key.version.text space) = some p → ∃ n, p = (.int n, none) := by
  intro p hp
  obtain ⟨n, hn, -⟩ := h.fitting .version p hp
  exact ⟨n, hn⟩

/-- Something that fits may be put under a key; permissions only under an epoch that is there. -/
theorem set (h : Holds shared left space m) {k : Key} {v : Value} {t : Option ℤ}
    (hfit : Fitting shared left k (v, t))
    (hepoch : ∀ u st e, k = .permissions u st e →
      ∃ n, m ((Key.epoch st).text space) = some (.int n, none)) :
    Holds shared left space (m.set (k.text space) v t) := by
  refine ⟨fun l p hp => ?_, fun u st e p hp => ?_⟩
  · by_cases heq : l.text space = k.text space
    · rw [heq, View.set_same] at hp
      exact Option.some.inj hp ▸ hfit.congr heq.symm
    · rw [View.set_of_ne m heq] at hp
      exact h.fitting l p hp
  · have hthere : ∃ n, m ((Key.epoch st).text space) = some (.int n, none) := by
      by_cases heq : k = .permissions u st e
      · exact hepoch u st e heq
      · rw [View.set_of_ne m fun htext => heq ((Key.text_eq_iff rfl).mp htext.symm)] at hp
        exact h.epochs u st e p hp
    by_cases heq : k = .epoch st
    · subst heq
      obtain ⟨n, hn, -⟩ := hfit
      exact ⟨n, by rw [View.set_same, hn]⟩
    · rwa [View.set_of_ne m fun htext => heq ((Key.text_eq_iff rfl).mp htext.symm)]

theorem without (h : Holds shared left space m) {ks : List Key} (hks : ∀ k ∈ ks, k.isDerived = true)
    (hepoch : ∀ st, Key.epoch st ∉ ks) :
    Holds shared left space (m.without (ks.map (Key.text space))) := by
  refine ⟨fun l p hp => ?_, fun u st e p hp => ?_⟩
  · rw [View.without_text hks] at hp
    split at hp
    · cases hp
    · exact h.fitting l p hp
  · rw [View.without_text hks] at hp
    split at hp
    · cases hp
    · obtain ⟨n, hn⟩ := h.epochs u st e p hp
      exact ⟨n, by rw [View.without_text hks, if_neg (hepoch st), hn]⟩

theorem fade (h : Holds shared left space m) (now : ℤ) : Holds shared left space (m.fade now) := by
  refine ⟨fun l p hp => h.fitting l p (Option.filter_eq_some_iff.mp hp).1, fun u st e p hp => ?_⟩
  obtain ⟨n, hn⟩ := h.epochs u st e p (Option.filter_eq_some_iff.mp hp).1
  refine ⟨n, ?_⟩
  rw [View.fade, hn]
  rfl

end Holds

/-! ### Orderly sessions -/

/-- Rows with numbers of their own, and sound rules that have room for so many more. -/
structure OrderlyTables (shared : Bool) (left : ℕ) (t : Tables) : Prop where
  edges : Table.edges.Keyed t.edges
  assignments : Table.assignments.Keyed t.assignments
  rules : Stocked shared left t.rules

theorem OrderlyTables.mono {t : Tables} (h : OrderlyTables shared left t) {left' : ℕ}
    (hle : left' ≤ left) :
    OrderlyTables shared left' t := ⟨h.edges, h.assignments, h.rules.mono hle⟩

/-- The cache holds what fits, and the tables are in order, now and as they were saved.  What is
held need not be true of the tables, nor the graphs that are kept. -/
structure Orderly (shared : Bool) (left : ℕ) (s : Session) (m : View) : Prop where
  represents : Represents shared s.cache m
  seeds : ∀ n, IsSeed s.cache n → Room shared left n
  holds : Holds shared left s.cache.space m
  tables : OrderlyTables shared left s.tables
  saved : OrderlyTables shared left s.saved

namespace Orderly

theorem mono (h : Orderly shared left s m) {left' : ℕ} (hle : left' ≤ left) :
    Orderly shared left' s m where
  represents := h.represents
  seeds n hn := (h.seeds n hn).mono hle
  holds := h.holds.mono hle
  tables := h.tables.mono hle
  saved := h.saved.mono hle

theorem countable (h : Orderly shared left s m) : ∀ n, IsSeed s.cache n → Countable shared n :=
  fun n hn => (h.seeds n hn).countable

theorem counting (h : Orderly shared left s m) : Counting shared left s.cache m :=
  ⟨h.represents, h.seeds, fun p hp => h.holds.fitting .version p hp⟩

theorem room (h : Orderly shared left s m) {st n : ℤ}
    (hstands : Stands s.cache m ((Key.epoch st).text s.cache.space) n) :
    Room shared left n := by
  rcases hstands with hn | ⟨-, hseed⟩
  · obtain ⟨k, hk, hroom⟩ := h.holds.fitting (.epoch st) _ hn
    obtain rfl : n = k := by simpa using hk
    exact hroom
  · exact h.seeds n hseed

theorem congr (h : Orderly shared left s m) (hcache : s'.cache = s.cache)
    (htables : s'.tables = s.tables) (hsaved : s'.saved = s.saved) : Orderly shared left s' m where
  represents := hcache ▸ h.represents
  seeds := hcache ▸ h.seeds
  holds := hcache ▸ h.holds
  tables := htables ▸ h.tables
  saved := hsaved ▸ h.saved

theorem withCache (h : Orderly shared left s m) {c : Cache} (hsteady : Steady s.cache c)
    (hrep : Represents shared c m') (hholds : Holds shared left s.cache.space m') :
    Orderly shared left (s.withCache c) m' where
  represents := hrep
  seeds n hn := h.seeds n (hsteady.isSeed hn)
  holds := by
    rw [show (s.withCache c).cache.space = s.cache.space from hsteady.space]
    exact hholds
  tables := h.tables
  saved := h.saved

end Orderly

/-- The second session is the first one after questions; if all graphs that it kept were
true, they still are. -/
structure Consulted (s s' : Session) : Prop where
  kept : Kept s s'
  truth : TrueGraphs s → TrueGraphs s'

theorem Consulted.refl (s : Session) : Consulted s s := ⟨.refl s, id⟩

theorem Consulted.trans {s₁ s₂ s₃ : Session} (h : Consulted s₁ s₂) (h' : Consulted s₂ s₃) :
    Consulted s₁ s₃ :=
  ⟨h.kept.trans h'.kept, fun hs => h'.truth (h.truth hs)⟩

theorem consulted_withCache {c : Cache} (hsteady : Steady s.cache c) :
    Consulted s (s.withCache c) :=
  ⟨⟨rfl, rfl, rfl, hsteady.clock, hsteady.space, hsteady.seeds⟩, id⟩

theorem Looks.consulted {st : ℤ} (h : Looks st s s') : Consulted s s' :=
  ⟨⟨h.settings, h.tables, h.saved, h.cache ▸ .refl _⟩, h.truth⟩

/-- The cache makes no difference to an operation that is local to a store. -/
theorem Local.agrees_withCache {st : ℤ} {operation : SessionM α} (h : Local st operation)
    (s : Session) (c : Cache) :
    (outcome operation (s.withCache c)).1 = (outcome operation s).1 :=
  h.agrees ⟨rfl, .refl st _, rfl⟩

theorem Noted.truth (h : Noted s s') (hs : TrueGraphs s) : TrueGraphs s' := by
  unfold TrueGraphs
  rw [h.graphs, h.tables]
  exact hs

theorem Noted.consulted (h : Noted s s') : Consulted s s' :=
  ⟨⟨h.settings, h.tables, h.saved, h.cache ▸ .refl _⟩, h.truth⟩

theorem outcome_yields {operation : CacheM α} {a : α} (h : Yields shared operation s.cache a m) :
    ∃ c, outcome (liftM operation : SessionM α) s = (.ok a, s.withCache c) ∧ Steady s.cache c ∧
      Represents shared c m := by
  obtain ⟨c, hrun, hsteady, hrep⟩ := h
  refine ⟨c, ?_, hsteady, hrep⟩
  rw [outcome_onCache, hrun]
  rfl

/-! ### Remembered answers -/

section getOrCompute

variable {key label : String} {ttl : Option ℤ} {compute : SessionM Value}

theorem outcome_getOrCompute_hit (h : Represents shared s.cache m) {p : Value × Option ℤ}
    (hp : m key = some p) (hnull : p.1.isNull = false) :
    ∃ c, outcome (getOrCompute key ttl label compute) s = (.ok p.1, s.withCache c) ∧
      Steady s.cache c ∧ Represents shared c m := by
  have hread := remembered_spec h key label
  rw [View.value, hp, Option.map_some, Option.getD_some] at hread
  obtain ⟨c, hrun, hrest⟩ := outcome_yields hread
  refine ⟨c, ?_, hrest⟩
  unfold getOrCompute
  rw [outcome_bind, hrun, andThen_ok, hnull]
  rfl

theorem outcome_getOrCompute_miss (h : Represents shared s.cache m) (hnone : m key = none) :
    ∃ c, outcome (getOrCompute key ttl label compute) s = andThen (outcome compute (s.withCache c))
        (fun v => outcome (do (remember key v ttl : CacheM Unit); return v)) ∧
      Steady s.cache c ∧ Represents shared c m := by
  have hread := remembered_spec h key label
  rw [View.value, hnone, Option.map_none, Option.getD_none] at hread
  obtain ⟨c, hrun, hrest⟩ := outcome_yields hread
  refine ⟨c, ?_, hrest⟩
  unfold getOrCompute
  rw [outcome_bind, hrun, andThen_ok, if_neg (by decide), outcome_bind]

theorem outcome_remember (key : String) (h : Represents shared s.cache m) {v w : Value}
    (hnull : v.isNull = false) (hvw : GivenBack shared v w) {t : ℤ} (ht : 0 < t) :
    ∃ c, outcome (do (remember key v (some t) : CacheM Unit); return v : SessionM Value) s =
      (.ok v, s.withCache c) ∧
      Steady s.cache c ∧ Represents shared c (m.set key w (some (s.cache.clock + t))) := by
  obtain ⟨c, hrun, hrest⟩ :=
    outcome_yields (remember_shown h key hnull hvw fun t' ht' => Option.some.inj ht' ▸ ht)
  refine ⟨c, ?_, hrest⟩
  rw [outcome_bind, hrun]
  rfl

end getOrCompute

/-! ### Endings -/

/-- An operation ends in an orderly session over the same tables, with a good result or a bad
failure. -/
def Ends (shared : Bool) (left : ℕ) (operation : SessionM α) (s : Session) (Good : α → Prop)
    (Bad : Failure → Prop) : Prop :=
  ∃ s' m', Consulted s s' ∧ Orderly shared left s' m' ∧
    ((∃ a, outcome operation s = (.ok a, s') ∧ Good a) ∨ ∃ e, outcome operation s = (.error e, s') ∧
      Bad e)

section ends

variable {Good : α → Prop} {Good' : β → Prop} {Bad Bad' : Failure → Prop}

theorem ends_pure (h : Orderly shared left s m) {a : α} (ha : Good a) :
    Ends shared left (pure a : SessionM α) s Good Bad := ⟨s, m, .refl s, h, .inl ⟨a, rfl, ha⟩⟩

theorem ends_bind {x : SessionM α} {f : α → SessionM β} (hx : Ends shared left x s Good Bad)
    (hf : ∀ a s' m', Good a → Consulted s s' → Orderly shared left s' m' →
      Ends shared left (f a) s' Good' Bad) :
    Ends shared left (x >>= f) s Good' Bad := by
  obtain ⟨s₁, m₁, hconsulted, h₁, ⟨a, hrun, ha⟩ | ⟨e, hrun, he⟩⟩ := hx
  · obtain ⟨s₂, m₂, hconsulted', h₂, hlast⟩ := hf a s₁ m₁ ha hconsulted h₁
    refine ⟨s₂, m₂, hconsulted.trans hconsulted', h₂, ?_⟩
    rwa [outcome_bind, hrun, andThen_ok]
  · exact ⟨s₁, m₁, hconsulted, h₁, .inr ⟨e, by rw [outcome_bind, hrun, andThen_error], he⟩⟩

theorem ends_current {f : Session → SessionM β} (hf : Ends shared left (f s) s Good' Bad) :
    Ends shared left (current >>= f) s Good' Bad := by
  unfold Ends
  rwa [outcome_bind, outcome_current, andThen_ok]

theorem ends_lift (h : Orderly shared left s m) {x : Except Failure α} {f : α → SessionM β}
    (hf : ∀ a, x = .ok a → Ends shared left (f a) s Good' Bad) (hbad : ∀ e, x = .error e → Bad e) :
    Ends shared left (liftM x >>= f) s Good' Bad := by
  unfold Ends
  rw [outcome_bind, outcome_lift]
  cases x with
  | error e => exact ⟨s, m, .refl s, h, .inr ⟨e, rfl, hbad e rfl⟩⟩
  | ok a => exact hf a rfl

theorem Ends.imp {operation : SessionM α} {Good' : α → Prop}
    (h : Ends shared left operation s Good Bad) (hgood : ∀ a, Good a → Good' a)
    (hbad : ∀ e, Bad e → Bad' e) : Ends shared left operation s Good' Bad' := by
  obtain ⟨s', m', hconsulted, h', ⟨a, hrun, ha⟩ | ⟨e, hrun, he⟩⟩ := h
  · exact ⟨s', m', hconsulted, h', .inl ⟨a, hrun, hgood a ha⟩⟩
  · exact ⟨s', m', hconsulted, h', .inr ⟨e, hrun, hbad e he⟩⟩

theorem ends_noted (h : Orderly shared left s m) {operation : SessionM α} {a : α}
    (hrun : outcome operation s = (.ok a, s')) (hnoted : Noted s s') (ha : Good a) :
    Ends shared left operation s Good Bad :=
  ⟨s', m, hnoted.consulted, h.congr hnoted.cache hnoted.tables hnoted.saved, .inl ⟨a, hrun, ha⟩⟩

theorem ends_local {st : ℤ} {operation : SessionM α} (hlocal : Local st operation)
    (h : Orderly shared left s m) (hbad : ∀ e, (outcome operation s).1 = .error e → Bad e) :
    Ends shared left operation s (fun _ => True) Bad := by
  have hlooks := hlocal.looks s
  generalize hrun : outcome operation s = result at hlooks hbad
  obtain ⟨r, s'⟩ := result
  refine ⟨s', m, hlooks.consulted, h.congr hlooks.cache hlooks.tables hlooks.saved, ?_⟩
  cases r with
  | error e => exact .inr ⟨e, hrun, hbad e rfl⟩
  | ok a => exact .inl ⟨a, hrun, trivial⟩

/-- What is remembered is good, and what is computed and then remembered is good and fits its
key. -/
theorem ends_getOrCompute (h : Orderly shared left s m) {k : Key}
    (hk : ∀ u st e, k ≠ .permissions u st e) {ttl : ℤ} (httl : 0 < ttl) {label : String}
    {compute : SessionM Value} {Good : Value → Prop}
    (hheld : ∀ p, Fitting shared left k p → p.1.isNull = false ∧ Good p.1)
    (hcompute : ∀ s' m', Consulted s s' → Orderly shared left s' m' → Ends shared left compute s'
      (fun v => v.isNull = false ∧ Good v ∧ ∃ w, GivenBack shared v w ∧
        ∀ t, Fitting shared left k (w, t)) Bad) :
    Ends shared left (getOrCompute (k.text s.cache.space) (some ttl) label compute) s Good Bad := by
  cases hp : m (k.text s.cache.space) with
  | some p =>
      obtain ⟨hnull, hgood⟩ := hheld p (h.holds.fitting k p hp)
      obtain ⟨c, hrun, hsteady, hrep⟩ := outcome_getOrCompute_hit h.represents hp hnull
      exact ⟨_, m, consulted_withCache hsteady, h.withCache hsteady hrep h.holds,
        .inl ⟨_, hrun, hgood⟩⟩
  | none =>
      obtain ⟨c, hrun, hsteady, hrep⟩ := outcome_getOrCompute_miss h.represents hp
      unfold Ends
      rw [hrun]
      have hconsulted := consulted_withCache (s := s) hsteady
      obtain ⟨s₁, m₁, hconsulted₁, h₁, ⟨v, hrun₁, hnull, hgood, w, hvw, hfit⟩ | ⟨e, hrun₁, he⟩⟩ :=
        hcompute _ m hconsulted (h.withCache hsteady hrep h.holds)
      · obtain ⟨c₂, hrun₂, hsteady₂, hrep₂⟩ :=
          outcome_remember (k.text s.cache.space) h₁.represents hnull hvw httl
        have hspace : s₁.cache.space = s.cache.space :=
          hconsulted₁.kept.cache.space.trans hsteady.space
        rw [← hspace] at hrep₂
        refine ⟨s₁.withCache c₂, _,
          (hconsulted.trans hconsulted₁).trans (consulted_withCache hsteady₂),
          h₁.withCache hsteady₂ hrep₂ (h₁.holds.set (hfit _) fun u st e heq =>
            absurd heq (hk u st e)), .inl ⟨v, ?_, hgood⟩⟩
        rw [hrun₁, andThen_ok, hrun₂]
      · exact ⟨s₁, m₁, hconsulted.trans hconsulted₁, h₁, .inr ⟨e, by rw [hrun₁, andThen_error], he⟩⟩

end ends

/-! ### Permissions -/

/-- The failures of an operation in any session. -/
def Raises (operation : SessionM α) (Bad : Failure → Prop) : Prop :=
  ∀ s e, (outcome operation s).1 = .error e → Bad e

section raises

variable {Bad : Failure → Prop}

theorem raises_pure (a : α) : Raises (pure a : SessionM α) Bad := fun _ _ h => by cases h

theorem raises_bind {x : SessionM α} {f : α → SessionM β} (hx : Raises x Bad)
    (hf : ∀ a, Raises (f a) Bad) :
    Raises (x >>= f) Bad := by
  intro s e he
  have hfirst := hx s
  rw [outcome_bind] at he
  generalize outcome x s = first at hfirst he
  rcases first with ⟨_ | a, s₁⟩
  · exact hfirst e (by simpa using he)
  · exact hf a s₁ e he

theorem raises_current : Raises current Bad := fun _ _ h => by cases h

end raises

/-- A number of the user or of the store does not fit the database. -/
def Unfit (user store : ℤ) (e : Failure) : Prop := e = .range ∧ ¬(fits user ∧ fits store)

theorem raises_directRoleIds (u st : ℤ) :
    Raises (directRoleIds (.int u) (.int st)) (Unfit u st) := by
  intro s e he
  unfold directRoleIds at he
  rw [outcome_bind, outcome_askedAll_pair] at he
  split at he
  · cases he
  · next hunfit =>
      obtain rfl : Failure.range = e := by simpa using he
      exact ⟨rfl, hunfit⟩

theorem raises_lowerRoleIds (u role st : ℤ) :
    Raises (lowerRoleIds (.int role) (.int st)) (Unfit u st) := by
  have hgraph : Raises (graph (.int st)) (Unfit u st) := by
    intro s e he
    rw [(graph_spec st s).1, graphAt] at he
    split at he
    · cases he
    · split at he
      · cases he
      · next hunfit => exact ⟨(Except.error.inj he).symm, fun hfits => hunfit hfits.2⟩
  exact raises_bind hgraph fun g => raises_bind raises_current fun _ => raises_pure _

theorem raises_effectiveRoleIds (u st : ℤ) :
    Raises (effectiveRoleIds (.int u) (.int st)) (Unfit u st) := by
  refine raises_bind (raises_directRoleIds u st) fun direct => ?_
  have hbelow : ∀ roles, Raises (rolesBelow (.int st) roles) (Unfit u st) := by
    intro roles
    induction roles with
    | nil => exact raises_pure []
    | cons role roles ih =>
        exact raises_bind (raises_lowerRoleIds u role st) fun _ => raises_bind ih fun _ =>
          raises_pure _
  exact raises_bind (hbelow direct) fun below => raises_pure _

theorem raises_workOutPermissions (u st : ℤ) :
    Raises (workOutPermissions (.int u) (.int st)) (Unfit u st) :=
  raises_bind (raises_effectiveRoleIds u st) fun _ => raises_bind raises_current fun _ =>
    raises_pure _

theorem nodup_workOutPermissions {u st : ℤ} {names : List String}
    (h : (outcome (workOutPermissions (.int u) (.int st)) s).1 = .ok names) : names.Nodup := by
  obtain ⟨roles, s₁, -, h⟩ := outcome_bind_eq_ok (Prod.ext h rfl)
  have hnames : .ok (s₁.tables.permissionsOfRoles (roles.1 ++ roles.2)) = Except.ok (ε := Failure)
      names :=
    congrArg Prod.fst h
  obtain rfl := Except.ok.inj hnames
  exact (pairwise_ascending _).imp fun hlt => ne_of_lt hlt

/-- What is remembered of the permissions of a user in a store under its epoch. -/
def rememberedPermissions (space : String) (m : View) (u st : ℤ) : Option Value :=
  (m ((Key.epoch st).text space)).bind fun epoch => epoch.1.int?.bind fun n =>
    (m ((Key.permissions u st n).text space)).map Prod.fst

/-- The members of the permissions of a user in a store: the remembered ones, or
those that are worked out. -/
def membersOf (s : Session) (m : View) (u st : ℤ) : Except Failure (List Value) :=
  (rememberedPermissions s.cache.space m u st).elim
    ((outcome (workOutPermissions (.int u) (.int st)) s).1.map (·.map .text)) Value.members

/-- The epoch of a store is read, and is there from then on; under it is what is remembered. -/
theorem outcome_permissionsKey (h : Orderly shared left s m) (u st : ℤ) : ∃ n c,
    let m' := m.set ((Key.epoch st).text s.cache.space) (.int n) none
    outcome (liftM (currentPermissionsKey (.int u) (.int st)) : SessionM String) s =
        (.ok ((Key.permissions u st n).text s.cache.space), s.withCache c) ∧
      Steady s.cache c ∧ Orderly shared left (s.withCache c) m' ∧
      rememberedPermissions s.cache.space m u st =
        (m' ((Key.permissions u st n).text s.cache.space)).map Prod.fst := by
  obtain ⟨n, hstands, hkey⟩ :=
    yields_currentPermissionsKey h.represents u st (h.holds.epoch st) h.countable
  obtain ⟨c, hrun, hsteady, hrep⟩ := outcome_yields hkey
  have hholds :=
    h.holds.set (k := .epoch st) (t := none) ⟨n, rfl, h.room hstands⟩ fun u st e heq => by cases heq
  refine ⟨n, c, hrun, hsteady, h.withCache hsteady hrep hholds, ?_⟩
  rw [View.set_text rfl, if_neg (by simp), rememberedPermissions]
  rcases hstands with hn | ⟨hnone, -⟩
  · rw [hn]
    rfl
  · -- Where there is no epoch, nothing is remembered.
    rw [hnone]
    cases hp : m ((Key.permissions u st n).text s.cache.space) with
    | none => rfl
    | some p =>
        obtain ⟨k, hk⟩ := h.holds.epochs u st n p hp
        rw [hnone] at hk
        cases hk

/-- Under the epoch of a store, the permissions there are what is remembered, or what is worked
out. -/
theorem outcome_rememberPermissions (u st n : ℤ) (h : Orderly shared left s m) {ttl : ℤ}
    (httl : 0 < ttl) (hepoch : m ((Key.epoch st).text s.cache.space) = some (.int n, none)) :
    ∃ s' m',
      outcome (getOrCompute ((Key.permissions u st n).text s.cache.space) (some ttl)
        "effective_permissions" (do
          return Value.texts (← workOutPermissions (.int u) (.int st)))) s =
        (((m ((Key.permissions u st n).text s.cache.space)).map Prod.fst).elim
          ((outcome (workOutPermissions (.int u) (.int st)) s).1.map Value.texts) .ok, s') ∧
      Consulted s s' ∧ Orderly shared left s' m' := by
  cases hp : m ((Key.permissions u st n).text s.cache.space) with
  | some p =>
      obtain ⟨names, -, hnames⟩ := h.holds.fitting (.permissions u st n) p hp
      have hnull : p.1.isNull = false := by
        rw [hnames]
        rfl
      obtain ⟨c, hrun, hsteady, hrep⟩ := outcome_getOrCompute_hit h.represents hp hnull
      exact ⟨_, m, hrun, consulted_withCache hsteady, h.withCache hsteady hrep h.holds⟩
  | none =>
      obtain ⟨c, hrun, hsteady, hrep⟩ := outcome_getOrCompute_miss h.represents hp
      have h₁ := h.withCache hsteady hrep h.holds
      have hconsulted₁ := consulted_withCache (s := s) hsteady
      have hlocal : Local st (workOutPermissions (.int u) (.int st)) := local_workOutPermissions u
      have hlooks := hlocal.looks (s.withCache c)
      rw [hrun, outcome_bind, ← hlocal.agrees_withCache s c]
      generalize houtcome : outcome (workOutPermissions (.int u) (.int st)) (s.withCache c) = worked
        at hlooks
      obtain ⟨r, s₂⟩ := worked
      have h₂ := h₁.congr hlooks.cache hlooks.tables hlooks.saved
      have hconsulted₂ := hconsulted₁.trans hlooks.consulted
      cases r with
      | error e => exact ⟨s₂, m, rfl, hconsulted₂, h₂⟩
      | ok names =>
          have hnodup := nodup_workOutPermissions (congrArg Prod.fst houtcome)
          have hnull : (Value.texts names).isNull = false := rfl
          obtain ⟨c₃, hrun₃, hsteady₃, hrep₃⟩ :=
            outcome_remember ((Key.permissions u st n).text s.cache.space)
            h₂.represents hnull (storable_texts names).givenBack httl
          have hspace : s₂.cache.space = s.cache.space := hconsulted₂.kept.cache.space
          rw [← hspace] at hrep₃
          refine ⟨s₂.withCache c₃, _, ?_, hconsulted₂.trans (consulted_withCache hsteady₃),
            h₂.withCache hsteady₃ hrep₃
            (h₂.holds.set (k := .permissions u st n) ⟨names, hnodup, rfl⟩ fun u' st' e heq => ?_)⟩
          · rw [andThen_ok, outcome_pure, andThen_ok, hrun₃]
            rfl
          · obtain ⟨rfl, rfl, rfl⟩ : u = u' ∧ st = st' ∧ n = e := by simpa using heq
            exact ⟨n, by rw [hspace, hepoch]⟩

/-- With a cache, the permissions of a user in a store are what is remembered under its epoch; if
that is nothing, they are worked out. -/
theorem outcome_permissionMembers (h : Orderly shared left s m) (u st : ℤ) :
    ∃ s' m', outcome (permissionMembers true (.int u) (.int st)) s = (s.membersOf m u st, s') ∧
      Consulted s s' ∧ Orderly shared left s' m' := by
  obtain ⟨n, c, hrun, hsteady, h₁, hremembered⟩ := outcome_permissionsKey h u st
  have hspace : (s.withCache c).cache.space = s.cache.space := hsteady.space
  obtain ⟨s₂, m₂, hrun₂, hconsulted₂, h₂⟩ := outcome_rememberPermissions u st n h₁
    (ttlSeconds_pos s.settings.permissionsTtl) (by rw [hspace, View.set_same])
  refine ⟨s₂, m₂, ?_, (consulted_withCache hsteady).trans hconsulted₂, h₂⟩
  have hlocal : Local st (workOutPermissions (.int u) (.int st)) := local_workOutPermissions u
  rw [hspace, hlocal.agrees_withCache s c] at hrun₂
  unfold permissionMembers membersOf
  rw [hremembered]
  simp only [if_true]
  rw [outcome_bind, hrun, andThen_ok, outcome_bind, outcome_current, andThen_ok]
  rw [outcome_bind, show (s.withCache c).settings = s.settings from rfl, hrun₂]
  cases (m.set ((Key.epoch st).text s.cache.space) (.int n) none)
    ((Key.permissions u st n).text s.cache.space) with
  | some p => exact outcome_lift p.1.members s₂
  | none =>
      cases hworked : (outcome (workOutPermissions (.int u) (.int st)) s).1 with
      | error e => rfl
      | ok names =>
          refine (outcome_lift (Value.texts names).members s₂).trans ?_
          rw [Value.members_texts (nodup_workOutPermissions hworked)]
          rfl

theorem membersOf_error (h : Orderly shared left s m) {u st : ℤ} {e : Failure}
    (he : s.membersOf m u st = .error e) :
    Unfit u st e := by
  unfold membersOf at he
  cases hremembered : rememberedPermissions s.cache.space m u st with
  | none =>
      rw [hremembered, Option.elim_none] at he
      cases hworked : (outcome (workOutPermissions (.int u) (.int st)) s).1 with
      | error e' =>
          rw [hworked] at he
          obtain rfl : e' = e := Except.error.inj he
          exact raises_workOutPermissions u st s e' hworked
      | ok names =>
          rw [hworked] at he
          cases he
  | some v =>
      rw [hremembered, Option.elim_some] at he
      obtain ⟨epoch, -, hepoch⟩ := Option.bind_eq_some_iff.mp hremembered
      obtain ⟨n, -, hn⟩ := Option.bind_eq_some_iff.mp hepoch
      obtain ⟨p, hp, rfl⟩ := Option.map_eq_some_iff.mp hn
      obtain ⟨names, hnodup, hnames⟩ := h.holds.fitting (.permissions u st n) p hp
      rw [hnames, Value.members_texts hnodup] at he
      cases he

theorem ends_permissionMembers (h : Orderly shared left s m) (cached : Bool) (u st : ℤ) :
    Ends shared left (permissionMembers cached (.int u) (.int st)) s (fun _ => True)
      (Unfit u st) := by
  cases cached with
  | false =>
      have hlocal : Local st (permissionMembers false (.int u) (.int st)) :=
        local_bind (local_workOutPermissions u) fun _ => local_pure _
      refine ends_local hlocal h fun e he => ?_
      exact raises_bind (raises_workOutPermissions u st) (fun _ => raises_pure _) s e he
  | true =>
      obtain ⟨s', m', hrun, hconsulted, h'⟩ := outcome_permissionMembers h u st
      refine ⟨s', m', hconsulted, h', ?_⟩
      rw [hrun]
      cases hmembers : s.membersOf m u st with
      | error e => exact .inr ⟨e, rfl, membersOf_error h hmembers⟩
      | ok members => exact .inl ⟨members, rfl, trivial⟩

theorem ends_effectivePermissions (h : Orderly shared left s m) (cached : Bool) (u st : ℤ) :
    Ends shared left (effectivePermissions cached (.int u) (.int st)) s (fun _ => True)
      (Unfit u st) :=
  ends_bind (ends_permissionMembers h cached u st) fun _ _ _ _ _ h' => ends_pure h' trivial

/-! ### All stores -/

theorem ends_workOutAllStores (h : Orderly shared left s m) (u : ℤ) :
    Ends shared left (workOutAllStores (.int u)) s (fun _ => True) (fun e => e = .range ∧
      ¬fits u) := by
  unfold workOutAllStores
  refine ends_current ?_
  split
  · rw [asked_int]
    refine ends_lift h (fun found _ => ends_current (ends_pure h trivial)) fun e he => ?_
    split at he
    · cases he
    · next hunfit => exact ⟨(Except.error.inj he).symm, hunfit⟩
  · exact ends_pure h trivial

theorem ends_hasAllStores (h : Orderly shared left s m) (cached : Bool) (u : ℤ) :
    Ends shared left (hasAllStores cached (.int u)) s (fun _ => True) (fun e => e = .range ∧
      ¬fits u) := by
  cases cached with
  | false => exact ends_workOutAllStores h u
  | true =>
      obtain ⟨c, hrun, hsteady, hrep⟩ := outcome_yields (currentAllStoresKey_spec h.represents u)
      have h₁ := h.withCache hsteady hrep h.holds
      have hconsulted₁ := consulted_withCache (s := s) hsteady
      unfold hasAllStores
      simp only [if_true]
      have hkeyed : Ends shared left (liftM (currentAllStoresKey (.int u)) : SessionM String) s
          (· = (Key.allStores u).text s.cache.space) fun e => e = .range ∧ ¬fits u :=
        ⟨_, m, hconsulted₁, h₁, .inl ⟨_, hrun, rfl⟩⟩
      refine ends_bind hkeyed fun key s₂ m₂ hkey hconsulted₂ h₂ => ends_current ?_
      rw [hkey, ← hconsulted₂.kept.cache.space]
      have hanswer : Ends shared left (getOrCompute ((Key.allStores u).text s₂.cache.space)
          (some s₂.settings.allStoresTtl.ttlSeconds) "all_stores"
            (do return .bool (← workOutAllStores (.int u)))) s₂
          (fun v => ∃ covered, v = .bool covered) fun e => e = .range ∧ ¬fits u := by
        refine ends_getOrCompute h₂ (by simp) (ttlSeconds_pos _) ?_ fun s' m' _ h' => ?_
        · rintro p ⟨covered, hcovered⟩
          exact ⟨by rw [hcovered]; rfl, covered, hcovered⟩
        · refine ends_bind (ends_workOutAllStores h' u) fun covered _ _ _ _ h'' => ?_
          exact ends_pure h'' ⟨rfl, ⟨covered, rfl⟩, _, Storable.givenBack fun _ =>
            (Value.Plain.bool covered).stable,
            fun _ => ⟨covered, rfl⟩⟩
      exact ends_bind hanswer fun _ _ _ _ _ h₃ => ends_pure h₃ trivial

/-! ### Questions -/

theorem Ends.after {operation : SessionM α} {Good : α → Prop} {Bad : Failure → Prop}
    (h : Ends shared left operation s Good Bad) :
    ∃ m', Consulted s (outcome operation s).2 ∧ Orderly shared left (outcome operation s).2 m' := by
  obtain ⟨s', m', hconsulted, h', ⟨a, hrun, -⟩ | ⟨e, hrun, -⟩⟩ := h
  all_goals
    rw [hrun]
    exact ⟨m', hconsulted, h'⟩

theorem Local.after {st : ℤ} {operation : SessionM α} (hlocal : Local st operation)
    (h : Orderly shared left s m) :
    ∃ m', Consulted s (outcome operation s).2 ∧ Orderly shared left (outcome operation s).2 m' := by
  have hlooks := hlocal.looks s
  exact ⟨m, hlooks.consulted, h.congr hlooks.cache hlooks.tables hlooks.saved⟩

/-- A question leaves an orderly session orderly, over the same tables. -/
theorem orderly_query (h : Orderly shared left s m) (query : Query) :
    ∃ m', Consulted s (s.afterQuery query) ∧ Orderly shared left (s.afterQuery query) m' := by
  cases query with
  | permissions user store => exact (ends_effectivePermissions h true user store).after
  | hasPermission user name store =>
      have hmembers := ends_permissionMembers h true user store
      have hfound : Ends shared left (hasPermission true (.int user) (.text name) (.int store)) s
          (fun _ => True)
          (Unfit user store) := ends_bind hmembers fun _ _ _ _ _ h' => ends_pure h' trivial
      exact hfound.after
  | hasAllStores user => exact (ends_hasAllStores h true user).after
  | lowerRoles role store => exact (local_lowerRoles role).after h
  | isHigher role other store => exact (local_isHigher role other).after h
  | tree store => exact local_hierarchyTree.after h
  | effectiveRoles user store => exact (local_effectiveRoles user).after h
  | canAct actor target store => exact (local_canAct actor target).after h

end Session
end AccessControl
