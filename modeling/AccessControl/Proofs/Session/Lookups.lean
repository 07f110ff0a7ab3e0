import AccessControl.Proofs.Database.ActiveRules
import AccessControl.Proofs.Session.Moments
import Mathlib

/-! # Rules that are looked up

A session goes on `Showing` the rules of some tables under the present version, whichever back end
its cache has.  Every change of the rules raises the version, so that nothing is remembered under
the present one (`Showing.ruleStep`).  A lookup answers with what is remembered or computes it from
the tables, which fails if a rule cannot be restored (`Showing.answers_rulesUnder`).  The rules need
not be sound for this: it is enough that they are `Typed`, which is `Upheld` by every write.  After
any run of calls, lookups and time, the rules that are looked up are the active rules of the tables,
and if these are sound, they come in their order (`findActive_run`). -/

namespace AccessControl
namespace Session

open Cache Database

variable {D : Topic → String → Prop} {shared : Bool} {left : ℕ} {s s' : Session} {m m' : View}
  {t t' : Tables}
  {T : Tables → Prop} {K : ℕ → List RuleRow → Prop} {n : ℤ}

/-! ### Stocks of rules -/

/-- Sound rules with numbers of their own, which have room for so many more. -/
structure Stocked (shared : Bool) (left : ℕ) (rows : List RuleRow) : Prop where
  keyed : Table.rules.Keyed rows
  sound : ∀ row ∈ rows, row.Sound
  ids : ∀ row ∈ rows, Room shared left row.id

theorem Stocked.mono {rows : List RuleRow} (h : Stocked shared left rows) {left' : ℕ}
    (hle : left' ≤ left) :
    Stocked shared left' rows := ⟨h.keyed, h.sound, fun row hrow => (h.ids row hrow).mono hle⟩

theorem stocked_nil (shared : Bool) (left : ℕ) : Stocked shared left [] :=
  ⟨List.nodup_nil, fun row hrow => (by cases hrow), fun row hrow => (by cases hrow)⟩

theorem Stocked.change (h : Stocked shared (left + 1) t.rules) (hzero : Room shared (left + 1) 0)
    (hchange : RulesChange t t') : Stocked shared left t'.rules := by
  have hframe := hchange.frame h.keyed
  refine ⟨hframe.keyed, hframe.sound h.sound, fun row hrow => ?_⟩
  rcases hframe.ids row hrow with hid | ⟨r, hr, hid | hid⟩
  · rw [hid]
    exact hzero.next
  · rw [hid]
    exact (h.ids r hr).fewer
  · rw [hid]
    exact (h.ids r hr).next

/-- Stored rules whose priorities are numbers that fit, and whose own numbers have
room for so many more. -/
structure Typed (shared : Bool) (left : ℕ) (rows : List RuleRow) : Prop where
  priorities : ∀ row ∈ rows, ∃ n, row.priority = .int n ∧ fits n
  ids : ∀ row ∈ rows, Room shared left row.id

theorem Typed.mono {rows : List RuleRow} (h : Typed shared left rows) {left' : ℕ}
    (hle : left' ≤ left) :
    Typed shared left' rows := ⟨h.priorities, fun row hrow => (h.ids row hrow).mono hle⟩

theorem Typed.write (h : Typed shared (left + 1) t.rules) (hzero : Room shared (left + 1) 0)
    (hwrite : RuleWrite t t') :
    Typed shared left t'.rules where
  priorities :=
    hwrite.forall_rules (fun hnew => hnew.sound.priority) (fun hchanged => hchanged.priority)
    (fun _ hold => hold) h.priorities
  ids := by
    have hnext : Room shared left (Table.rules.nextId t) := by
      obtain hfirst | ⟨r, hr, hid⟩ := nextId_cases t
      · rw [hfirst]
        exact hzero.next
      · rw [hid]
        exact (h.ids r hr).next
    have hids : ∀ row ∈ t.rules, Room shared left row.id := fun row hrow => (h.ids row hrow).fewer
    refine hwrite.forall_rules (fun hnew => ?_) (fun hchanged hold => ?_) (fun _ hold => hold) hids
    · rwa [hnew.id_eq]
    · rwa [hchanged.id_eq]

theorem Stocked.typed {rows : List RuleRow} (h : Stocked shared left rows) :
    Typed shared left rows :=
  ⟨fun row hrow => (h.sound row hrow).priority, h.ids⟩

/-- A property of stored rules with which they can be looked up, and which every write
keeps, for one change less. -/
structure Upheld (shared : Bool) (K : ℕ → List RuleRow → Prop) : Prop where
  typed : ∀ {left rows}, K left rows → Typed shared left rows
  mono : ∀ {left left' rows}, K left rows → left' ≤ left → K left' rows
  write : ∀ {left t t'}, K (left + 1) t.rules → Room shared (left + 1) 0 → RuleWrite t t' →
      K left t'.rules

theorem upheld_typed (shared : Bool) : Upheld shared (Typed shared) :=
  ⟨id, fun h hle => h.mono hle, fun h hzero hwrite => h.write hzero hwrite⟩

theorem upheld_stocked (shared : Bool) : Upheld shared (Stocked shared) :=
  ⟨fun h => h.typed, fun h hle => h.mono hle, fun h hzero hwrite => h.change hzero hwrite.change⟩

/-- A value holds the active rules of a service for a method, as they are restored. -/
structure HoldsRules (t : Tables) (service method : String) (v : Value) : Prop where
  some : v.isNull = false
  read : Tables.readPayload v = (t.activeRules service method).mapM RuleRow.restored

/-- The cached form of sound active rules holds them, and so does what the back end gives back of
it. -/
theorem exists_payload {service method : String}
    (hsound : ∀ row ∈ t.activeRules service method, row.Sound)
    (hids : ∀ row ∈ t.activeRules service method, Countable shared row.id) :
    ∃ v w, t.rulesPayload service method = .ok v ∧ GivenBack shared v w ∧
      HoldsRules t service method v ∧
      HoldsRules t service method w := by
  obtain ⟨snapshots, rules, hsnapshots, hread, hrestored⟩ := restored_rows hsound
  have hv : t.rulesPayload service method = .ok (.list (snapshots.map Rule.toValue)) := by
    unfold Tables.rulesPayload
    rw [hsnapshots]
    rfl
  have hholds : HoldsRules t service method (.list (snapshots.map Rule.toValue)) :=
    ⟨rfl, hread.trans hrestored.symm⟩
  cases shared with
  | false => exact ⟨_, _, hv, rfl, hholds, hholds⟩
  | true =>
      -- A string store sorts the fields of every rule.
      have hregular : ∀ r ∈ snapshots, r.Regular := by
        intro r hr
        obtain ⟨row, hrow, hsnapshot⟩ := exists_of_mem_mapM hsnapshots hr
        exact (hsound row hrow).regular (hids row hrow rfl) hsnapshot
      have hplain : (Value.list (snapshots.map Rule.toValue)).sorted.Plain := by
        refine Value.plain_sorted_list fun v hv => ?_
        obtain ⟨r, hr, rfl⟩ := List.mem_map.mp hv
        exact (hregular r hr).plain_sorted
      refine ⟨_, _, hv, ⟨hplain.stable, Value.toSortedJson_sorted hplain⟩, hholds, ?_⟩
      rw [Value.sorted, Value.sortedItems_eq_map, List.map_map]
      exact ⟨rfl, (Rule.mapM_read_sorted hregular).trans hholds.read⟩

theorem Stocked.payload (h : Stocked shared left t.rules) (service method : String) :
    ∃ v w, t.rulesPayload service method = .ok v ∧ GivenBack shared v w ∧
      HoldsRules t service method v ∧
      HoldsRules t service method w :=
  exists_payload (fun row hrow => h.sound row (Tables.mem_activeRules hrow))
    fun row hrow => (h.ids row (Tables.mem_activeRules hrow)).countable

theorem HoldsRules.congr {service method : String} {v : Value} (h : HoldsRules t service method v)
    (hrules : t'.rules = t.rules) : HoldsRules t' service method v := by
  refine ⟨h.some, h.read.trans ?_⟩
  unfold Tables.activeRules
  rw [hrules]

/-! ### Current sessions -/

/-- What is remembered under a digest of some rules are the rules of all these tables. -/
def Shows (T : Tables → Prop) (text : String) (p : Value × Option ℤ) : Prop :=
  ∀ t, T t → ∀ service method, text = rulesText service method → HoldsRules t service method p.1

/-- A coherent session whose cache shows, under the present version, the rules of some tables,
which need not be its own. -/
structure Showing (D : Topic → String → Prop) (shared : Bool) (left : ℕ) (T : Tables → Prop)
    (s : Session) (m : View) :
    Prop where
  coherent : Coherent shared left s m
  versions : ∀ p, m (Key.version.text s.cache.space) = some p → ∃ n, p = (.int n, none) ∧
      Room shared left n
  entries : Versioned D .rules (Shows T) s.cache.space m

theorem Showing.weaken (h : Showing D shared left T s m) {U : Tables → Prop}
    (hsub : ∀ u, U u → T u) :
    Showing D shared left U s m where
  coherent := h.coherent
  versions := h.versions
  entries := h.entries.later (Unmoved.refl _ m).fades fun _ _ hshows u hu => hshows u (hsub u hu)

theorem Showing.counting (h : Showing D shared left T s m) : Counting shared left s.cache m :=
  ⟨h.coherent.represents, h.coherent.seeds, h.versions⟩

theorem Showing.kept (h : Showing D shared left T s m) (hkept : Kept s s')
    (hcoherent : Coherent shared left s' m) :
    Showing D shared left T s' m where
  coherent := hcoherent
  versions := hkept.cache.space ▸ h.versions
  entries := hkept.cache.space ▸ h.entries

theorem Showing.rulesetVersion (h : Showing D shared left T s m) :
    ∃ n m', Answers shared left (liftM rulesetVersion : SessionM ℤ) s (.ok n) m' ∧
      m' (Key.version.text s.cache.space) = some (.int n, none) ∧
      ∀ s', Kept s s' → Coherent shared left s' m' → Showing D shared left T s' m' := by
  obtain ⟨n, hstands, hanswer⟩ := answers_version h.coherent h.counting.number
  refine ⟨n, _, hanswer, View.set_same ..,
    fun s' hkept hcoherent => ⟨hcoherent, fun p hp => ?_, ?_⟩⟩
  · rw [hkept.cache.space, View.set_same] at hp
    exact ⟨n, (Option.some.inj hp).symm, h.counting.room hstands⟩
  · rw [hkept.cache.space]
    exact h.entries.version (hstands.imp_right And.left)

theorem Showing.setRules (h : Showing D shared left T s m) (hD : Digests D)
    (hn : m (Key.version.text s.cache.space) = some (.int n, none)) {service word : String}
    (hknown : D .rules (rulesText service word)) {v : Value}
    (hholds : ∀ t, T t → HoldsRules t service word v) {expiresAt : Option ℤ} (hkept : Kept s s')
    (hcoherent :
      Coherent shared left s'
      (m.set ((Key.rules n (rulesText service word)).text s.cache.space) v expiresAt)) :
    Showing D shared left T s'
      (m.set ((Key.rules n (rulesText service word)).text s.cache.space) v expiresAt) where
  coherent := hcoherent
  versions p hp := by
    rw [hkept.cache.space,
      set_known hD (k := .rules n (rulesText service word)) hknown m v expiresAt (l := .version)
      trivial, if_neg (by simp)] at hp
    exact h.versions p hp
  entries := by
    rw [hkept.cache.space]
    refine h.entries.set hD hn hknown fun t ht service' word' hsame => ?_
    obtain ⟨rfl, rfl⟩ := rulesText_inj hsame
    exact hholds t ht

/-- The rules of the tables are remembered under the present version, or computed and remembered
then, if they can be. -/
theorem Showing.answers_rulesUnder (h : Showing D shared left T s m) (hD : Digests D)
    (hT : T s.tables) (hrows : Typed shared left s.tables.rules)
    (hn : m (Key.version.text s.cache.space) = some (.int n, none)) {service word : String}
    (hknown : D .rules (rulesText service word)) :
    ∃ payload m', Answers shared left (rulesUnder s n service word) s payload m' ∧
      payload >>= Tables.readPayload = (s.tables.activeRules service word).mapM RuleRow.restored ∧
      ∀ s', Kept s s' → Coherent shared left s' m' →
        Showing D shared left (fun u => T u ∧ u.rules = s.tables.rules) s' m' := by
  have hmem : ∀ row ∈ s.tables.activeRules service word, row ∈ s.tables.rules :=
    fun row hrow => Tables.mem_activeRules hrow
  cases hp : m ((Key.rules n (rulesText service word)).text s.cache.space) with
  | some p =>
      obtain ⟨v, expiresAt⟩ := p
      obtain ⟨k, hk, -, hshows⟩ := h.entries n _ _ hknown hp
      obtain rfl : n = k := by simpa [hn] using hk
      have hholds := hshows rfl s.tables hT service word rfl
      exact ⟨.ok v, m, answers_getOrCompute_hit h.coherent hp hholds.some, hholds.read,
        fun s' hkept h' => (h.kept hkept h').weaken fun _ => And.left⟩
  | none =>
      cases hsnapshots : (s.tables.activeRules service word).mapM RuleRow.snapshot with
      | ok snapshots =>
          have hsound : ∀ row ∈ s.tables.activeRules service word, row.Sound := fun row hrow =>
            RuleRow.sound_of_snapshot ((exists_of_mapM hsnapshots hrow).imp fun _ => And.right)
              (hrows.priorities row (hmem row hrow))
          obtain ⟨v, w, hv, hvw, hholds, hback⟩ :=
            exists_payload hsound fun row hrow => (hrows.ids row (hmem row hrow)).countable
          have hcompute : ∀ s', Kept s s' → Coherent shared left s' m →
              ∃ m', m' = m ∧ Answers shared left (computeRules service word) s' (.ok v) m' :=
            fun s' hkept h' => ⟨m, rfl, hv ▸ hkept.answers_computeRules h' service word⟩
          have hshown : ∃ m', m' = m ∧ Answers shared left (rulesUnder s n service word) s (.ok v)
              (m'.set ((Key.rules n (rulesText service word)).text s.cache.space) w _) :=
            answers_getOrCompute_shown h.coherent hp (ttlSeconds_pos _) hcompute hholds.some hvw rfl
              fun m' _ htells => htells.set_other (k := .rules n (rulesText service word)) rfl _ _
          obtain ⟨m', rfl, hanswer⟩ := hshown
          refine ⟨.ok v, _, hanswer, hholds.read, fun s' hkept h' => ?_⟩
          exact (h.weaken fun _ => And.left).setRules hD hn hknown (fun u hu => hback.congr hu.2)
            hkept h'
      | error e =>
          -- What cannot be computed is not remembered.
          have hv : s.tables.rulesPayload service word = .error e := by
            unfold Tables.rulesPayload
            rw [hsnapshots]
            rfl
          have hanswer : Answers shared left (rulesUnder s n service word) s (.error e) m :=
            answers_getOrCompute_error h.coherent hp fun s' hkept h' =>
              hv ▸ hkept.answers_computeRules h' service word
          exact ⟨.error e, m, hanswer, (mapM_restored_error hsnapshots).symm,
            fun s' hkept h' => (h.kept hkept h').weaken fun _ => And.left⟩

theorem Showing.advance (h : Showing D shared left T s m) (seconds : ℕ) :
    Showing D shared left T (s.advance seconds) (m.fade (s.cache.clock + seconds)) where
  coherent := coherent_advance h.coherent seconds
  versions p hp := h.versions p (Option.filter_eq_some_iff.mp hp).1
  entries := h.entries.later (fades_fade m _) fun _ _ hgood => hgood

theorem Showing.mono (h : Showing D shared left T s m) {left' : ℕ} (hle : left' ≤ left) :
    Showing D shared left' T s m where
  coherent := h.coherent.mono hle
  versions p hp := by
    obtain ⟨n, hn, hroom⟩ := h.versions p hp
    exact ⟨n, hn, hroom.mono hle⟩
  entries := h.entries

theorem Showing.noted (h : Showing D shared left T s m) (hnoted : Noted s s') :
    Showing D shared left T s' m where
  coherent := h.coherent.noted hnoted
  versions := hnoted.cache ▸ h.versions
  entries := hnoted.cache ▸ h.entries

/-- A coherent session of sound rules.  Under the present version its cache shows the rules of some
tables, which need not be its own. -/
structure Current (D : Topic → String → Prop) (shared : Bool) (left : ℕ) (T : Tables → Prop)
    (s : Session) (m : View) :
    Prop where
  coherent : Coherent shared left s m
  stocked : Stocked shared left s.tables.rules
  versions : ∀ p, m (Key.version.text s.cache.space) = some p → ∃ n, p = (.int n, none) ∧
      Room shared left n
  entries : Versioned D .rules (Shows T) s.cache.space m

theorem Current.showing (h : Current D shared left T s m) : Showing D shared left T s m :=
  ⟨h.coherent, h.versions, h.entries⟩

theorem Showing.current (h : Showing D shared left T s m)
    (hstocked : Stocked shared left s.tables.rules) :
    Current D shared left T s m := ⟨h.coherent, hstocked, h.versions, h.entries⟩

theorem Current.weaken (h : Current D shared left T s m) {U : Tables → Prop}
    (hsub : ∀ u, U u → T u) :
    Current D shared left U s m := (h.showing.weaken hsub).current h.stocked

/-! ### Changes -/

/-- After a change of the rules nothing is remembered under the present version, so it shows
the rules of any tables. -/
theorem Showing.afterRules (h : Showing D shared (left + 1) T s m)
    (hchange : RulesChange s.tables t') :
    ∃ m', Showing D shared left (fun _ => True) (afterRules t' s) m' := by
  obtain ⟨n, hstands, -, c, hrun, hsteady, hrep⟩ := h.counting.bump
  have hafter : Session.afterRules t' s = ({ s with tables := t' } : Session).withCache c := by
    unfold Session.afterRules
    rw [outcome_onCache, hrun]
    rfl
  have hcoherent := (h.coherent.rules hchange.rest).fewer
  have htells := hcoherent.tells.set_other (k := .version) rfl (.int (n + 1)) none
  have hspace : c.space = s.cache.space := hsteady.space
  rw [hafter]
  refine ⟨_, hcoherent.withCache hsteady hrep htells, fun p hp => ?_, ?_⟩
  · change m.set (Key.version.text s.cache.space) _ _ (Key.version.text c.space) = some p at hp
    rw [hspace, View.set_same] at hp
    exact ⟨n + 1, (Option.some.inj hp).symm, (h.counting.room hstands).next⟩
  · change Versioned D .rules _ c.space _
    rw [hspace]
    exact h.entries.renewed (hstands.imp_right And.left)

/-- After a step the rules of the same tables are shown, and if it changes the
tables, those of any. -/
theorem Showing.ruleStep (hK : Upheld shared K) (hstep : RuleStep s s')
    (h : Showing D shared (left + 1) T s m) (hrows : K (left + 1) s.tables.rules) :
    K left s'.tables.rules ∧
      ∃ m', Showing D shared left (fun u => s'.tables = s.tables → T u) s' m' := by
  rcases hstep with hnoted | ⟨t', hwrite, hnoted⟩
  · refine ⟨hnoted.tables ▸ hK.mono hrows (Nat.le_succ left), m, ?_⟩
    exact ((h.noted hnoted).mono (Nat.le_succ left)).weaken fun u hu => hu hnoted.tables
  · obtain ⟨m', h'⟩ := h.afterRules hwrite.change
    have hafter : s'.tables = t' := by rw [hnoted.tables, Session.afterRules, outcome_onCache]
    refine ⟨hafter ▸ hK.write hrows (h.coherent.seeds 0 (.inr rfl)) hwrite, m', ?_⟩
    exact (h'.noted hnoted).weaken fun _ _ => trivial

theorem Showing.rulePath (hK : Upheld shared K) {k : ℕ} (hpath : RulePath k s s')
    (h : Showing D shared (left + k) T s m) (hrows : K (left + k) s.tables.rules) :
    K left s'.tables.rules ∧
      ∃ m', Showing D shared left (fun u => s'.tables = s.tables → T u) s' m' := by
  induction hpath generalizing T m with
  | refl k s =>
      exact ⟨hK.mono hrows (Nat.le_add_right left k), m,
        (h.mono (Nat.le_add_right left k)).weaken fun u hu => hu rfl⟩
  | head hstep _ ih =>
      obtain ⟨hrows₁, m₁, h₁⟩ := h.ruleStep hK hstep hrows
      obtain ⟨hrows', m', h'⟩ := ih h₁ hrows₁
      exact ⟨hrows', m', h'.weaken fun u hu hlast hfirst => hu (hlast.trans hfirst)⟩

/-! ### Lookups -/

/-- What is digested for a lookup. -/
def lookupText (service method : String) : String :=
  rulesText (Text.lower (Text.strip service)) (RuleText.method method)

theorem methodOf_text (method : String) :
    RuleText.methodOf (.text method) = .ok (RuleText.method method) := by
  unfold RuleText.methodOf
  split
  · next hempty =>
      obtain rfl : method = "" := by simpa [Value.isTruthy] using hempty
      rfl
  · rfl

/-- Without a version, rules are looked up under the present one. -/
theorem outcome_findActive_null (service method : String)
    (hversion : outcome (liftM rulesetVersion : SessionM ℤ) s = (.ok n, s')) :
    outcome (findActive (.text service) (.text method) .null) s =
      outcome (findActive (.text service) (.text method) (.int n)) s' := by
  have hpresent : outcome (Value.int <$> (liftM rulesetVersion : SessionM ℤ)) s =
      (.ok (.int n), s') := by
    rw [outcome_map, hversion, andThen_ok]
  unfold findActive
  conv_lhs =>
    rw [outcome_bind, outcome_lift, methodOf_text, andThen_ok,
      if_pos (c := Value.null.isNull = true) rfl, outcome_bind, hpresent, andThen_ok]
  conv_rhs =>
    rw [outcome_bind, outcome_lift, methodOf_text, andThen_ok,
      if_neg (c := (Value.int n).isNull = true) Bool.false_ne_true, pure_bind]

theorem Showing.answers_findActive (h : Showing D shared left T s m) (hD : Digests D)
    (hT : T s.tables) (hrows : Typed shared left s.tables.rules)
    (hn : m (Key.version.text s.cache.space) = some (.int n, none)) (service method : String)
    (hknown : D .rules (lookupText service method)) :
    ∃ m', Answers shared left (findActive (.text service) (.text method) (.int n)) s
        ((s.tables.activeRules (Text.lower (Text.strip service)) (RuleText.method method)).mapM
          RuleRow.restored) m' ∧
      ∀ s', Kept s s' → Coherent shared left s' m' →
        Showing D shared left (fun u => T u ∧ u.rules = s.tables.rules) s' m' := by
  obtain ⟨payload, m', hpayload, hread, hshowing⟩ := h.answers_rulesUnder hD hT hrows hn hknown
  exact ⟨m', hread ▸ Session.answers_findActive (methodOf_text method) hpayload, hshowing⟩

/-- A lookup gives the active rules of the tables or why they cannot be restored, and then
shows these rules only. -/
theorem Showing.find (h : Showing D shared left T s m) (hD : Digests D) (hT : T s.tables)
    (hrows : Typed shared left s.tables.rules) (service method : String)
    (hknown : D .rules (lookupText service method)) :
    ∃ s' m', outcome (findActive (.text service) (.text method) .null) s =
        ((s.tables.activeRules (Text.lower (Text.strip service)) (RuleText.method method)).mapM
          RuleRow.restored, s') ∧
      Kept s s' ∧ Showing D shared left (fun u => T u ∧ u.rules = s.tables.rules) s' m' := by
  obtain ⟨n, m₁, ⟨s₁, hrun₁, hkept₁, hcoherent₁⟩, hn, hshowing⟩ := h.rulesetVersion
  have h₁ := hshowing s₁ hkept₁ hcoherent₁
  rw [← hkept₁.cache.space] at hn
  obtain ⟨m₂, ⟨s₂, hrun₂, hkept₂, hcoherent₂⟩, hshowing₂⟩ :=
    h₁.answers_findActive hD (hkept₁.tables ▸ hT) (hkept₁.tables ▸ hrows) hn service method hknown
  have h₂ := hshowing₂ s₂ hkept₂ hcoherent₂
  rw [hkept₁.tables] at hrun₂ h₂
  exact ⟨s₂,
    m₂, by rw [outcome_findActive_null service method hrun₁, hrun₂], hkept₁.trans hkept₂, h₂⟩

/-! ### Turns -/

/-- A call, a lookup of the rules, or time that goes by. -/
inductive Turn where
  | rules (call : RuleCall)
  | find (service method : String)
  | advance (seconds : ℕ)

/-- The session after a turn, which may have failed. -/
def afterTurn (s : Session) : Turn → Session
  | .rules call => afterRuleCall call s
  | .find service method => (outcome (findActive (.text service) (.text method) .null) s).2
  | .advance seconds => s.advance seconds

/-- What is digested for the lookups among some turns. -/
def LookedUp (turns : List Turn) (topic : Topic) (text : String) : Prop :=
  topic = .rules ∧ ∃ service method, .find service method ∈ turns ∧ text = lookupText service method

theorem LookedUp.of_finds {turns turns' : List Turn}
    (hfinds : ∀ service method, .find service method ∈ turns → .find service method ∈ turns')
    {topic : Topic} {text : String} (h : LookedUp turns topic text) :
    LookedUp turns' topic text := by
  obtain ⟨htopic, service, method, hmem, htext⟩ := h
  exact ⟨htopic, service, method, hfinds service method hmem, htext⟩

theorem LookedUp.mono {turns turns' : List Turn} (hsub : turns ⊆ turns') {topic : Topic}
    {text : String} (h : LookedUp turns topic text) : LookedUp turns' topic text :=
  h.of_finds fun _ _ hmem => hsub hmem

theorem digests_of_one {turns : List Turn} (text : String)
    (h : ∀ service method, .find service method ∈ turns → lookupText service method = text) :
    Digests (LookedUp turns) := by
  rintro topic a b ⟨-, service, method, hmem, rfl⟩ ⟨-, service', method', hmem', rfl⟩ -
  exact (h service method hmem).trans (h service' method' hmem').symm

/-- After a turn the rules of the same tables are shown, and if it changes the tables, those of any.
A lookup shows the rules of its own tables only. -/
theorem Showing.turn (hK : Upheld shared K) (hD : Digests D) (turn : Turn)
    (h : Showing D shared (left + methods.length) T s m)
    (hrows : K (left + methods.length) s.tables.rules) (hT : T s.tables)
    (hknown : ∀ service method, turn = .find service method →
      D .rules (lookupText service method)) :
    OnlyRules s (s.afterTurn turn) ∧ K left (s.afterTurn turn).tables.rules ∧
      (∀ service method, turn = .find service method → (s.afterTurn turn).tables = s.tables) ∧
      ∃ m', Showing D shared left (fun u => ((s.afterTurn turn).tables = s.tables → T u) ∧
        ∀ service method, turn = .find service method →
          u.rules = s.tables.rules) (s.afterTurn turn) m' := by
  cases turn with
  | rules call =>
      have hpath := path_ruleCall call s
      obtain ⟨hrows', m', h'⟩ := h.rulePath hK hpath hrows
      exact ⟨hpath.onlyRules, hrows', fun _ _ heq => (by cases heq), m',
        h'.weaken fun _ => And.left⟩
  | find service method =>
      obtain ⟨s', m', hrun, hkept, h'⟩ :=
        h.find hD hT (hK.typed hrows) service method (hknown service method rfl)
      have hafter : s.afterTurn (.find service method) = s' := congrArg Prod.snd hrun
      rw [hafter]
      refine ⟨⟨hkept.saved, by rw [hkept.tables]⟩,
        hkept.tables ▸ hK.mono hrows (Nat.le_add_right left _), fun _ _ _ => hkept.tables, m', ?_⟩
      exact (h'.mono (Nat.le_add_right left _)).weaken fun u hu =>
        ⟨hu.1 hkept.tables, hu.2 service method rfl⟩
  | advance seconds =>
      have h' := (h.advance seconds).mono (Nat.le_add_right left methods.length)
      exact ⟨⟨rfl, rfl⟩, hK.mono hrows (Nat.le_add_right left _), fun _ _ heq => (by cases heq), _,
        h'.weaken fun u hu => hu.1 rfl⟩

/-! ### Several turns -/

/-- The session after some turns. -/
def afterTurns (s : Session) (turns : List Turn) : Session := turns.foldl afterTurn s

/-- The tables are changed at some time. -/
def Changes (s : Session) (turns : List Turn) : Prop :=
  ∃ first rest, turns = first ++ rest ∧ (s.afterTurns first).tables ≠ s.tables

/-- Whenever rules are looked up, they are those of the given tables, or the tables are changed
later. -/
def LooksAt (s : Session) (u : Tables) (turns : List Turn) : Prop :=
  ∀ first service method rest, turns = first ++ .find service method :: rest →
    (s.afterTurns first).tables.rules = u.rules ∨
      (s.afterTurns first).Changes (.find service method :: rest)

/-- Tables whose rules are shown after some turns: they were shown before or there was a change, and
what was looked up since are their rules. -/
structure StillShown (T : Tables → Prop) (s : Session) (turns : List Turn) (u : Tables) : Prop where
  shown : T u ∨ s.Changes turns
  looks : s.LooksAt u turns

theorem Changes.tail {turn : Turn} {turns : List Turn} (h : s.Changes (turn :: turns))
    (hsame : (s.afterTurn turn).tables = s.tables) : (s.afterTurn turn).Changes turns := by
  obtain ⟨first, rest, heq, hne⟩ := h
  cases first with
  | nil => exact absurd rfl hne
  | cons turn' first =>
      obtain ⟨rfl, rfl⟩ := List.cons.inj heq
      exact ⟨first, rest, rfl, hsame ▸ hne⟩

theorem LooksAt.tail {u : Tables} {turn : Turn} {turns : List Turn}
    (h : s.LooksAt u (turn :: turns)) :
    (s.afterTurn turn).LooksAt u turns :=
  fun first service method rest hturns =>
    h (turn :: first) service method rest (by rw [hturns]; rfl)

theorem changes_or_eq (s : Session) (turns : List Turn) :
    (s.afterTurns turns).tables = s.tables ∨ s.Changes turns := by
  by_cases hsame : (s.afterTurns turns).tables = s.tables
  · exact .inl hsame
  · exact .inr ⟨turns, [], (List.append_nil turns).symm, hsame⟩

theorem stillShown_end (hT : T s.tables) (turns : List Turn) :
    s.StillShown T turns (s.afterTurns turns).tables where
  shown := by
    refine (s.changes_or_eq turns).imp_left fun hsame => ?_
    rwa [hsame]
  looks := by
    intro first service method rest hturns
    refine ((s.afterTurns first).changes_or_eq (.find service method :: rest)).imp_left fun hsame =>
      ?_
    rw [← hsame, hturns]
    unfold afterTurns
    rw [List.foldl_append]

/-- After some turns, the rules of all tables that are still shown are shown. -/
theorem Showing.turns (hK : Upheld shared K) (hD : Digests D) (turns : List Turn)
    (h : Showing D shared (left + methods.length * turns.length) T s m)
    (hrows : K (left + methods.length * turns.length) s.tables.rules) (hT : T s.tables)
    (hknown : ∀ topic text, LookedUp turns topic text → D topic text) :
    OnlyRules s (s.afterTurns turns) ∧ K left (s.afterTurns turns).tables.rules ∧
      ∃ m', Showing D shared left (s.StillShown T turns) (s.afterTurns turns) m' := by
  induction turns generalizing s m T with
  | nil =>
      refine ⟨.refl s, hrows, m, h.weaken fun u hu => hu.shown.resolve_right ?_⟩
      rintro ⟨first, rest, heq, hne⟩
      obtain ⟨rfl, -⟩ := List.append_eq_nil_iff.mp heq.symm
      exact hne rfl
  | cons turn turns ih =>
      rw [List.length_cons, Nat.mul_succ, ← Nat.add_assoc] at h hrows
      obtain ⟨honly, hrows₁, hfind, m₁, h₁⟩ := h.turn hK hD turn hrows hT
        fun service method hturn =>
          hknown _ _ ⟨rfl, service, method, hturn ▸ List.mem_cons_self, rfl⟩
      obtain ⟨honly', hrows', m', h'⟩ := ih h₁ hrows₁
        ⟨fun hsame => hsame ▸ hT, fun service method hturn => by rw [hfind service method hturn]⟩
        fun topic text h => hknown topic text (h.mono (List.subset_cons_self turn turns))
      refine ⟨honly.trans honly', hrows', m', h'.weaken fun u hu => ⟨?_, hu.looks.tail⟩⟩
      -- Without a later change, what is shown after the turn is what was shown before, and what the
      -- turn looked up.
      by_cases hlater : (s.afterTurn turn).Changes turns
      · exact .inr hlater
      · refine .inl ⟨fun hsame => hu.shown.resolve_right fun hchange => hlater (hchange.tail hsame),
          fun service method hturn => ?_⟩
        have hlook := hu.looks [] service method turns (by rw [hturn]; rfl)
        exact (hlook.resolve_right fun hchange =>
          hlater (Changes.tail (hturn ▸ hchange) (hfind service method hturn))).symm

theorem Current.turns (hD : Digests D) (turns : List Turn)
    (h : Current D shared (left + methods.length * turns.length) T s m) (hT : T s.tables)
    (hknown : ∀ topic text, LookedUp turns topic text → D topic text) :
    OnlyRules s (s.afterTurns turns) ∧
      ∃ m', Current D shared left (s.StillShown T turns) (s.afterTurns turns) m' := by
  obtain ⟨honly, hstocked, m', h'⟩ :=
    h.showing.turns (upheld_stocked shared) hD turns h.stocked hT hknown
  exact ⟨honly, m', h'.current hstocked⟩

theorem showing_fresh {T : Tables → Prop} (hs : s.Fresh shared left) :
    Showing D shared left T s fun _ => none where
  coherent := coherent_fresh hs
  versions p hp := by cases hp
  entries v text p _ hp := by cases hp

theorem current_fresh (hs : s.Fresh shared left) (hrules : Stocked shared left s.tables.rules) :
    Current D shared left (· = s.tables) s fun _ => none := (showing_fresh hs).current hrules

theorem Current.lists (h : Current D shared left T s m) (hD : Digests D) (hT : T s.tables)
    (service method : String) (hknown : D .rules (lookupText service method)) :
    ∃ rows rules, (outcome (findActive (.text service) (.text method) .null) s).1 = .ok rules ∧
      s.tables.ListsActive (Text.lower (Text.strip service)) (RuleText.method method) rows ∧
      rows.mapM RuleRow.restored = .ok rules := by
  obtain ⟨s', m', hrun, -, -⟩ := h.showing.find hD hT h.stocked.typed service method hknown
  have hlists :=
    Tables.listsActive_activeRules h.stocked.keyed h.stocked.sound (Text.lower (Text.strip service))
    (RuleText.method method)
  obtain ⟨-, rules, -, -, hrestored⟩ :=
    restored_rows fun row hrow => h.stocked.sound row (Tables.mem_activeRules hrow)
  refine ⟨_, rules, ?_, hlists, hrestored⟩
  rw [hrun, hrestored]

/-- Whatever was called, looked up and remembered before, a lookup gives the active rules of the
moment: those of the service for the method or for any, each once, by priority from high to low and
then by number, as they are restored from their snapshots. -/
theorem findActive_run (s : Session) (turns : List Turn) (service method : String)
    (hs : s.Fresh shared (methods.length * turns.length))
    (hrules : Stocked shared (methods.length * turns.length) s.tables.rules)
    (hD : Digests (LookedUp (turns ++ [.find service method]))) :
    let s' := s.afterTurns turns
    ∃ rows rules, (outcome (findActive (.text service) (.text method) .null) s').1 = .ok rules ∧
      s'.tables.ListsActive (Text.lower (Text.strip service)) (RuleText.method method) rows ∧
      rows.mapM RuleRow.restored = .ok rules := by
  intro s'
  have hfresh :
      Current (LookedUp (turns ++ [.find service method])) shared
      (0 + methods.length * turns.length)
      (· = s.tables) s fun _ => none := by
    rw [Nat.zero_add]
    exact current_fresh hs hrules
  obtain ⟨-, m, h⟩ :=
    hfresh.turns hD turns rfl fun topic text h => h.mono (List.subset_append_left turns _)
  exact h.lists hD (stillShown_end (T := (· = s.tables)) rfl turns) service method ⟨rfl, service,
    method, by simp, rfl⟩

/-- A session over an empty string store. -/
def sharedStart : Session := { oneStore with cache := ⟨.remote .empty, "authz", 0, [1], []⟩ }

/-- A rule is made and looked up, and then comes one of higher priority, for any method. -/
def secondRule : List Turn :=
  [.rules (.create readOrders), .find "shop" "GET",
    .rules (.create { readOrders with method := some (some "any"), priority := some (some 5) }),
      .advance 3]

theorem room_shared {n : ℤ} (h : n.natAbs + left < 10 ^ 3) : Room true left n := fun _ =>
  h.trans_le (Nat.pow_le_pow_right (by decide) (by decide))

theorem fresh_sharedStart : sharedStart.Fresh true (methods.length * secondRule.length) where
  cache := ⟨rfl, ⟨rfl, rfl⟩, ⟨List.nodup_nil, fun _ => rfl⟩, fun _ p hp => by cases hp⟩
  seeds n hn := by
    have hcases : n = 1 ∨ n = 0 := by simpa [IsSeed, sharedStart] using hn
    rcases hcases with rfl | rfl <;> exact room_shared (by decide)
  graphs := rfl
  edges := List.nodup_nil
  assignments := List.nodup_nil

theorem findActive_run_secondRule :
    (outcome (findActive (.text " Shop ") (.text "get") .null)
      (sharedStart.afterTurns secondRule)).1.toOption.map
        (·.map fun rule => rule.id.int?) = some [some 2, some 1] ∧
      ∃ rows rules, (outcome (findActive (.text " Shop ") (.text "get") .null)
          (sharedStart.afterTurns secondRule)).1 = .ok rules ∧
        (sharedStart.afterTurns secondRule).tables.ListsActive (Text.lower (Text.strip " Shop "))
          (RuleText.method "get") rows ∧
        rows.mapM RuleRow.restored = .ok rules := by
  have hrules : Stocked true (methods.length * secondRule.length) sharedStart.tables.rules :=
    stocked_nil true _
  have hD : Digests (LookedUp (secondRule ++ [.find " Shop " "get"])) := by
    refine digests_of_one (lookupText "shop" "GET") fun service method hmem => ?_
    obtain ⟨rfl, rfl⟩ | ⟨rfl, rfl⟩ : (service = "shop" ∧ method = "GET") ∨
      (service = " Shop " ∧ method = "get") := by
      simpa [secondRule] using hmem
    · rfl
    · have hservice : Text.lower (Text.strip " Shop ") = Text.lower (Text.strip "shop") := by
        decide +kernel
      have hmethod : RuleText.method "get" = RuleText.method "GET" := by decide +kernel
      rw [lookupText, hservice, hmethod, lookupText]
  refine ⟨?_, findActive_run sharedStart secondRule " Shop " "get" fresh_sharedStart hrules hD⟩
  decide +kernel

end Session
end AccessControl
