import AccessControl.Proofs.Cache.View
import AccessControl.Proofs.Value.Json
import Mathlib

/-! # What the operations of a cache do

A cache `Represents` a view when its back end shows it; a string store has to be in reach, and what
it holds has to be read back as it was written.  Each operation then answers from the view, and
changes it as its name says, whatever the back end is.  From these follow counters
(`readCounter_spec`, `bumpCounter_spec`), which never come to stand lower. -/

namespace AccessControl
namespace Cache

/-! ### Back ends -/

/-- The back end shows the view.  A shared string store also answers, and what it
shows can be read back. -/
def Represents (shared : Bool) (c : Cache) (m : View) : Prop :=
  match c.backend with
  | .memory entries => shared = false ∧ Shows entries c.clock id m
  | .remote store => shared = true ∧ (store.down = false ∧ store.faults = []) ∧
      Shows store.entries c.clock Value.toSortedJson m ∧ ∀ key p, m key = some p → p.1.Stable

/-- A value that the back end gives back as it was. -/
def Storable (shared : Bool) (v : Value) : Prop := shared = true → v.Stable

theorem storable_memory (v : Value) : Storable false v :=
  fun hshared => absurd hshared Bool.false_ne_true

/-- What the back end gives back of a value: memory gives back the value itself, and a string store
the value that its text stands for. -/
def GivenBack (shared : Bool) (v w : Value) : Prop :=
  match shared with
  | false => w = v
  | true => w.Stable ∧ w.toSortedJson = v.toSortedJson

theorem Storable.givenBack {shared : Bool} {v : Value} (h : Storable shared v) :
    GivenBack shared v v := by
  cases shared with
  | false => rfl
  | true => exact ⟨h rfl, rfl⟩

/-- The second cache is the first one after operations of its back end. -/
structure Steady (c c' : Cache) : Prop where
  clock : c'.clock = c.clock
  space : c'.space = c.space
  seeds : ∀ seed ∈ c'.seeds, seed ∈ c.seeds

theorem Steady.refl (c : Cache) : Steady c c := ⟨rfl, rfl, fun _ h => h⟩

theorem Steady.trans {c₁ c₂ c₃ : Cache} (h : Steady c₁ c₂) (h' : Steady c₂ c₃) : Steady c₁ c₃ where
  clock := h'.clock.trans h.clock
  space := h'.space.trans h.space
  seeds seed hseed := h.seeds seed (h'.seeds seed hseed)

/-- An operation gives a result, and leads to a cache that represents a view. -/
def Yields {α : Type} (shared : Bool) (operation : CacheM α) (c : Cache) (a : α) (m : View) :
    Prop :=
  ∃ c', outcome operation c = (.ok a, c') ∧ Steady c c' ∧ Represents shared c' m

variable {shared : Bool} {c : Cache} {m : View}

theorem Represents.memory {entries : Entries Value} (h : Represents shared c m)
    (hc : c.backend = .memory entries) :
    shared = false ∧ Shows entries c.clock id m := by
  unfold Represents at h
  rwa [hc] at h

theorem Represents.remote {store : Remote} (h : Represents shared c m)
    (hc : c.backend = .remote store) :
    shared = true ∧ (store.down = false ∧ store.faults = []) ∧
      Shows store.entries c.clock Value.toSortedJson m ∧
      ∀ key p, m key = some p → p.1.Stable := by
  unfold Represents at h
  rwa [hc] at h

theorem Represents.lt_expiry (h : Represents shared c m) {key : String} {v : Value} {t : ℤ}
    (hm : m key = some (v, some t)) : c.clock < t := by
  unfold Represents at h
  split at h
  · exact h.2.lt_expiry hm
  · exact h.2.2.1.lt_expiry hm

theorem represents_memory (c : Cache) {entries : Entries Value} (hshared : shared = false)
    (h : Shows entries c.clock id m) : Represents shared { c with backend := .memory entries } m :=
  ⟨hshared, h⟩

theorem represents_remote (c : Cache) {store : Remote} (hshared : shared = true)
    (hstore : store.down = false ∧ store.faults = [])
    (h : Shows store.entries c.clock Value.toSortedJson m)
    (hstable : ∀ key p, m key = some p → p.1.Stable) :
    Represents shared { c with backend := .remote store } m :=
  ⟨hshared, hstore, h, hstable⟩

theorem shows_nil {α : Type} (now : ℤ) (code : Value → α) : Shows [] now code fun _ => none :=
  ⟨List.nodup_nil, fun _ => rfl⟩

/-- A cache as it is set up over a back end, at the start of time. -/
def fresh (backend : Backend) : Cache := ⟨backend, "authz", 0, [], []⟩

theorem represents_emptyMemory (hc : c.backend = .memory []) :
    Represents false c fun _ => none := by
  unfold Represents
  rw [hc]
  exact ⟨rfl, shows_nil c.clock id⟩

theorem represents_emptyRemote (hc : c.backend = .remote .empty) :
    Represents true c fun _ => none := by
  unfold Represents
  rw [hc]
  exact ⟨rfl, ⟨rfl, rfl⟩, shows_nil c.clock Value.toSortedJson, fun _ _ hp => by cases hp⟩

theorem steady_backend (c : Cache) (backend : Backend) : Steady c { c with backend := backend } :=
  ⟨rfl, rfl, fun _ h => h⟩

/-! ### Operations -/

/-- What a store in reach becomes by a call: the call is noted, and what has expired is dropped. -/
def reached (store : Remote) (call : Call) (now : ℤ) : Remote :=
  { store with
    entries := store.entries.live now
    calls := store.calls ++ [call]
    served := store.served + 1 }

theorem outcome_reach (c : Cache) (store : Remote) (call : Call) (failure : Failure)
    (hstore : store.down = false ∧ store.faults = []) : outcome (reach store call failure) c =
      (.ok (reached store call c.clock),
        { c with backend := .remote (reached store call c.clock) }) := by
  unfold reach
  simp only [hstore.1, hstore.2, List.contains_nil, Bool.or_false, Bool.false_eq_true, if_false,
    outcome_bind, setRemote, outcome_modify, andThen_ok, outcome_get, outcome_pure, reached]

theorem outcome_decode {v : Value} (hv : v.Stable) (c : Cache) :
    outcome (decode v.toSortedJson) c = (.ok v, c) := by
  unfold decode
  rw [hv.read]
  rfl

theorem read_spec (h : Represents shared c m) (key : String) :
    Yields shared (read key) c (m.value key) m := by
  unfold Yields read
  cases hc : c.backend with
  | memory entries =>
      obtain ⟨hshared, hshows⟩ := h.memory hc
      refine ⟨{ c with backend := .memory (entries.find c.clock key).2 }, ?_, steady_backend c _,
        represents_memory c hshared (hshows.find key)⟩
      simp only [outcome_bind, outcome_get, andThen_ok, hc, setMemory, outcome_modify, outcome_pure,
        View.value]
      rcases hshows.find_cases key with ⟨hfound, hm⟩ | ⟨e, value, hfound, hm, hvalue⟩
      · simp [hfound, hm]
      · simp [hfound, hm, hvalue]
  | remote store =>
      obtain ⟨hshared, hstore, hshows, hstable⟩ := h.remote hc
      refine ⟨{ c with backend := .remote (reached store (.get key) c.clock) }, ?_,
        steady_backend c _, represents_remote c hshared hstore hshows.live hstable⟩
      simp only [outcome_bind, outcome_get, andThen_ok, hc, outcome_reach _ _ _ _ hstore,
        View.value]
      rcases hshows.live.find_cases key with ⟨hfound, hm⟩ | ⟨e, value, hfound, hm, hvalue⟩
      · simp [reached, hfound, hm]
      · simp only [reached, hfound, hm, hvalue]
        exact outcome_decode (hstable key _ hm) _

theorem isLive_expiry {α : Type} (key : String) (value : α) (now : ℤ) {ttl : Option ℤ}
    (httl : ∀ t, ttl = some t → 0 < t) :
    (⟨key, value, expiry now ttl⟩ : Entry α).isLive now = true := by
  cases ttl with
  | none => rfl
  | some t =>
      have ht := httl t rfl
      simp [Entry.isLive, expiry, ht]

theorem stable_set {m : View} (hm : ∀ key p, m key = some p → p.1.Stable) {v : Value}
    (hv : v.Stable) (key : String) (t : Option ℤ) :
    ∀ other p, m.set key v t other = some p → p.1.Stable := by
  intro other p hp
  by_cases h : other = key
  · rw [h, View.set_same] at hp
    cases hp
    exact hv
  · rw [View.set_of_ne m h] at hp
    exact hm other p hp

/-- After a value is written, what the back end gives back of it is shown. -/
theorem write_shown (h : Represents shared c m) (key : String) {v w : Value}
    (hvw : GivenBack shared v w) {ttl : Option ℤ} (httl : ∀ t, ttl = some t → 0 < t) :
    Yields shared (write key v ttl) c () (m.set key w (expiry c.clock ttl)) := by
  unfold Yields write
  cases hc : c.backend with
  | memory entries =>
      obtain ⟨rfl, hshows⟩ := h.memory hc
      obtain rfl : w = v := hvw
      refine ⟨_, ?_, steady_backend c _, represents_memory c rfl
        (hshows.put key w (expiry c.clock ttl) (isLive_expiry key w c.clock httl))⟩
      simp only [outcome_bind, outcome_get, andThen_ok, hc, setMemory, outcome_modify]
      rfl
  | remote store =>
      obtain ⟨rfl, hstore, hshows, hstable⟩ := h.remote hc
      obtain ⟨hw, htext⟩ := hvw
      let store' := reached store (.set key v.toSortedJson ttl false) c.clock
      have hput := hshows.live.put key w (expiry c.clock ttl) (isLive_expiry key _ c.clock httl)
      rw [htext] at hput
      refine ⟨{ c with
        backend := .remote { store' with
          entries := store'.entries.put ⟨key, v.toSortedJson, expiry c.clock ttl⟩ } }, ?_,
        steady_backend c _, represents_remote c rfl hstore hput (stable_set hstable hw key _)⟩
      simp only [outcome_bind, outcome_get, andThen_ok, hc, outcome_reach _ _ _ _ hstore, setRemote,
        outcome_modify]
      rfl

/-- A value is added under a key that is free. -/
theorem add_shown (h : Represents shared c m) {key : String} (hfree : m key = none) {v w : Value}
    (hvw : GivenBack shared v w) {ttl : Option ℤ} (httl : ∀ t, ttl = some t → 0 < t) :
    Yields shared (add key v ttl) c true (m.set key w (expiry c.clock ttl)) := by
  unfold Yields add
  cases hc : c.backend with
  | memory entries =>
      obtain ⟨rfl, hshows⟩ := h.memory hc
      obtain rfl : w = v := hvw
      have hfound := hshows.find_none hfree
      refine ⟨_, ?_, steady_backend c _, represents_memory c rfl
        ((hshows.find key).put key w (expiry c.clock ttl) (isLive_expiry key w c.clock httl))⟩
      simp only [outcome_bind, outcome_get, andThen_ok, hc, hfound, Option.isSome_none,
        Bool.false_eq_true, if_false, setMemory, outcome_modify, outcome_pure]
      rfl
  | remote store =>
      obtain ⟨rfl, hstore, hshows, hstable⟩ := h.remote hc
      obtain ⟨hw, htext⟩ := hvw
      let store' := reached store (.set key v.toSortedJson ttl true) c.clock
      have hfound : (store'.entries.find c.clock key).1 = none := hshows.live.find_none hfree
      have hput := hshows.live.put key w (expiry c.clock ttl) (isLive_expiry key _ c.clock httl)
      rw [htext] at hput
      refine ⟨{ c with
        backend := .remote { store' with
          entries := store'.entries.put ⟨key, v.toSortedJson, expiry c.clock ttl⟩ } }, ?_,
        steady_backend c _, represents_remote c rfl hstore hput (stable_set hstable hw key _)⟩
      simp only [outcome_bind, outcome_get, andThen_ok, hc, outcome_reach _ _ _ _ hstore]
      rw [show reached store (.set key v.toSortedJson ttl true) c.clock = store' from rfl, hfound]
      simp only [Option.isSome_none, Bool.false_eq_true, if_false, setRemote, outcome_bind,
        outcome_modify, andThen_ok, outcome_pure]

/-- Nothing is added under a key that is taken. -/
theorem add_taken (h : Represents shared c m) {key : String} {p : Value × Option ℤ}
    (htaken : m key = some p) (v : Value) (ttl : Option ℤ) :
    Yields shared (add key v ttl) c false m := by
  unfold Yields add
  cases hc : c.backend with
  | memory entries =>
      obtain ⟨hshared, hshows⟩ := h.memory hc
      have hfound : (entries.find c.clock key).1.isSome = true := by
        rw [hshows.isSome_find, htaken, Option.isSome_some]
      refine ⟨_, ?_, steady_backend c _, represents_memory c hshared (hshows.find key)⟩
      simp only [outcome_bind, outcome_get, andThen_ok, hc, hfound, if_true, setMemory,
        outcome_modify, outcome_pure]
  | remote store =>
      obtain ⟨hshared, hstore, hshows, hstable⟩ := h.remote hc
      let store' := reached store (.set key v.toSortedJson ttl true) c.clock
      have hfound : (store'.entries.find c.clock key).1.isSome = true :=
        (hshows.live.isSome_find key).trans (by rw [htaken, Option.isSome_some])
      refine ⟨{ c with backend := .remote store' }, ?_, steady_backend c _,
        represents_remote c hshared hstore hshows.live hstable⟩
      simp only [outcome_bind, outcome_get, andThen_ok, hc, outcome_reach _ _ _ _ hstore]
      rw [show reached store (.set key v.toSortedJson ttl true) c.clock = store' from rfl, hfound]
      simp only [if_true, outcome_pure]

/-- What is under the keys is removed, and counted once for each key. -/
theorem delete_spec (h : Represents shared c m) (keys : List String) :
    Yields shared (delete keys) c (m.removed keys) (m.without keys) := by
  unfold Yields delete
  cases hc : c.backend with
  | memory entries =>
      obtain ⟨hshared, hshows⟩ := h.memory hc
      refine ⟨{ c with backend := .memory (entries.remove c.clock keys).2 }, ?_, steady_backend c _,
        represents_memory c hshared (hshows.remove keys)⟩
      simp only [outcome_bind, outcome_get, andThen_ok, hc, setMemory, outcome_modify, outcome_pure,
        hshows.count_remove]
  | remote store =>
      obtain ⟨hshared, hstore, hshows, hstable⟩ := h.remote hc
      cases hkeys : keys with
      | nil =>
          -- The store is not called for no keys.
          have hview : m.without [] = m := by
            funext key
            simp [View.without]
          refine ⟨c, ?_, .refl c, hview.symm ▸ h⟩
          simp only [outcome_bind, outcome_get, andThen_ok, hc, List.isEmpty_nil, if_true,
            outcome_pure]
          rfl
      | cons key rest =>
          let store' := reached store (.delete (key :: rest)) c.clock
          refine ⟨{ c with
            backend := .remote { store' with
              entries := (store'.entries.remove c.clock (key :: rest)).2 } }, ?_,
            steady_backend c _, represents_remote c hshared hstore
              (hshows.live.remove (key :: rest)) fun other p hp => ?_⟩
          · have hcount := hshows.live.count_remove (key :: rest)
            simp only [outcome_bind, outcome_get, andThen_ok, hc, List.isEmpty_cons,
              Bool.false_eq_true, if_false, outcome_reach _ _ _ _ hstore, setRemote, outcome_modify,
              outcome_pure, ← hcount]
            rfl
          · unfold View.without at hp
            split at hp
            · cases hp
            · exact hstable other p hp

theorem isCounterText_intText (n : ℤ) : isCounterText (Text.intText n) = true := by
  have hdigits : (Text.intText n).toList.dropWhile (· == '-') = Nat.toDigits 10 n.natAbs := by
    have hnone : (Nat.toDigits 10 n.natAbs).dropWhile (· == '-') = Nat.toDigits 10 n.natAbs := by
      cases hcs : Nat.toDigits 10 n.natAbs with
      | nil => rfl
      | cons c cs =>
          refine List.dropWhile_cons_of_neg ?_
          simp only [beq_iff_eq]
          rintro rfl
          exact Text.not_minus_mem_toDigits hcs
    rw [Text.intText_toList]
    split
    · rw [List.dropWhile_cons_of_pos rfl, hnone]
    · exact hnone
  unfold isCounterText
  rw [hdigits, Bool.and_eq_true, List.all_eq_true]
  refine ⟨by simp, fun c hc => ?_⟩
  rw [Text.digitValue_of_isAsciiDigit (Text.isAsciiDigit_of_mem_toDigits hc)]
  rfl

/-- A number that the back end can keep. -/
def Countable (shared : Bool) (n : ℤ) : Prop := shared = true → Text.Short n

theorem countable_memory (n : ℤ) : Countable false n :=
  fun hshared => absurd hshared Bool.false_ne_true

theorem Countable.storable {n : ℤ} (h : Countable shared n) : Storable shared (.int n) :=
  fun hshared => (Value.Plain.int n (h hshared)).stable

/-- The number under a key becomes greater by one. -/
theorem increment_spec (h : Represents shared c m) {key : String} {n : ℤ} {t : Option ℤ}
    (hn : m key = some (.int n, t)) (hkept : Countable shared n) (hnext : Countable shared (n + 1))
    (hlive : t.all (c.clock < ·) = true) :
    Yields shared (increment key) c (n + 1) (m.set key (.int (n + 1)) t) := by
  have hput : ∀ {α : Type} (v : α), (⟨key, v, t⟩ : Entry α).isLive c.clock = true := by
    intro α v
    cases t with
    | none => rfl
    | some t => simpa [Entry.isLive] using hlive
  unfold Yields increment
  cases hc : c.backend with
  | memory entries =>
      obtain ⟨hshared, hshows⟩ := h.memory hc
      rcases hshows.find_cases key with ⟨-, hm⟩ | ⟨e, value, hfound, hm, hvalue⟩
      · rw [hn] at hm
        cases hm
      · obtain ⟨rfl, rfl⟩ : value = .int n ∧ e.expiresAt = t := by
          rw [hn] at hm
          simpa [eq_comm] using hm
        refine ⟨_, ?_, steady_backend c _, represents_memory c hshared
          ((hshows.find key).put key (.int (n + 1)) e.expiresAt (hput _))⟩
        simp only [outcome_bind, outcome_get, andThen_ok, hc, setMemory, outcome_modify, hfound,
          hvalue, id_eq, outcome_pure]
  | remote store =>
      obtain ⟨hshared, hstore, hshows, hstable⟩ := h.remote hc
      let store' := reached store (.increment key) c.clock
      rcases hshows.live.find_cases key with ⟨-, hm⟩ | ⟨e, value, hfound, hm, hvalue⟩
      · rw [hn] at hm
        cases hm
      · obtain ⟨rfl, rfl⟩ : value = .int n ∧ e.expiresAt = t := by
          rw [hn] at hm
          simpa [eq_comm] using hm
        rw [Value.toSortedJson_int] at hvalue
        have hput' := hshows.live.put key (.int (n + 1)) e.expiresAt (hput _)
        rw [Value.toSortedJson_int] at hput'
        refine ⟨{ c with
          backend := .remote { store' with
            entries := store'.entries.put ⟨key, Text.intText (n + 1), e.expiresAt⟩ } }, ?_,
          steady_backend c _, represents_remote c hshared hstore hput'
            (stable_set hstable (hnext.storable hshared) key _)⟩
        have hfound' : (store'.entries.find c.clock key).1 = some e := hfound
        simp only [outcome_bind, outcome_get, andThen_ok, hc, outcome_reach _ _ _ _ hstore]
        rw [show reached store (.increment key) c.clock = store' from rfl, hfound']
        simp only [hvalue, isCounterText_intText, Bool.not_true, Bool.false_eq_true, if_false,
          Text.readInt_intText (hkept hshared), setRemote, outcome_bind, outcome_modify, andThen_ok,
            outcome_pure]

/-- A number under a key that is free counts as zero. -/
theorem increment_free (h : Represents shared c m) {key : String} (hfree : m key = none) :
    Yields shared (increment key) c 1 (m.set key (.int 1) none) := by
  unfold Yields increment
  cases hc : c.backend with
  | memory entries =>
      obtain ⟨hshared, hshows⟩ := h.memory hc
      have hfound := hshows.find_none hfree
      refine ⟨_, ?_, steady_backend c _,
        represents_memory c hshared ((hshows.find key).put key (.int 1) none rfl)⟩
      simp only [outcome_bind, outcome_get, andThen_ok, hc, setMemory, outcome_modify, hfound,
        outcome_pure, id_eq]
  | remote store =>
      obtain ⟨hshared, hstore, hshows, hstable⟩ := h.remote hc
      let store' := reached store (.increment key) c.clock
      have hfound : (store'.entries.find c.clock key).1 = none := hshows.live.find_none hfree
      have hone : Text.Short 1 := Nat.one_lt_pow (by decide) (by decide)
      have hput := hshows.live.put key (.int 1) none rfl
      rw [Value.toSortedJson_int] at hput
      refine ⟨{ c with
        backend := .remote { store' with
          entries := store'.entries.put ⟨key, Text.intText 1, none⟩ } }, ?_,
        steady_backend c _, represents_remote c hshared hstore hput
          (stable_set hstable (Value.Plain.int 1 hone).stable key _)⟩
      have hzero : isCounterText "0" = true ∧ Text.readInt "0" = .ok 0 := ⟨by decide, by decide⟩
      simp only [outcome_bind, outcome_get, andThen_ok, hc, outcome_reach _ _ _ _ hstore]
      rw [show reached store (.increment key) c.clock = store' from rfl, hfound]
      simp only [hzero, Bool.not_true, Bool.false_eq_true, if_false, setRemote, outcome_bind,
        outcome_modify, andThen_ok, outcome_pure]
      rfl

/-! ### Sequences -/

theorem yields_after {α β : Type} {x : CacheM α} {f : α → CacheM β} {a : α} {b : β} {c₁ : Cache}
    {m' : View} (hx : outcome x c = (.ok a, c₁)) (hsteady : Steady c c₁)
    (hf : Yields shared (f a) c₁ b m') :
    Yields shared (x >>= f) c b m' := by
  obtain ⟨c₂, hrun, hsteady', hrep⟩ := hf
  exact ⟨c₂, by rw [outcome_bind, hx, andThen_ok, hrun], hsteady.trans hsteady', hrep⟩

theorem yields_bind {α β : Type} {x : CacheM α} {f : α → CacheM β} {a : α} {b : β} {m m' : View}
    (hx : Yields shared x c a m)
    (hf : ∀ c', Steady c c' → Represents shared c' m → Yields shared (f a) c' b m') :
    Yields shared (x >>= f) c b m' := by
  obtain ⟨c₁, hrun, hsteady, hrep⟩ := hx
  exact yields_after hrun hsteady (hf c₁ hsteady hrep)

theorem yields_pure {α : Type} (h : Represents shared c m) (a : α) : Yields shared (pure a) c a m :=
  ⟨c, rfl, .refl c, h⟩

theorem yields_lift {α : Type} (h : Represents shared c m) {x : Except Failure α} {a : α}
    (hx : x = .ok a) :
    Yields shared (liftM x : CacheM α) c a m :=
  ⟨c, by rw [outcome_lift, hx], .refl c, h⟩

theorem yields_get (h : Represents shared c m) : Yields shared (get : CacheM Cache) c c m :=
  ⟨c, rfl, .refl c, h⟩

theorem yields_note (h : Represents shared c m) (level : Log.Level) (channel : Log.Channel)
    (event : String) (details : Fields) : Yields shared (note level channel event details) c () m :=
  ⟨_, rfl, ⟨rfl, rfl, fun _ h => h⟩, h⟩

/-! ### Counters -/

/-- A number that a fresh counter may get. -/
def IsSeed (c : Cache) (n : ℤ) : Prop := n ∈ c.seeds ∨ n = 0

theorem Steady.isSeed {c c' : Cache} (h : Steady c c') {n : ℤ} (hn : IsSeed c' n) : IsSeed c n :=
  hn.imp_left (h.seeds n)

theorem takeSeed_spec (h : Represents shared c m) :
    ∃ n, IsSeed c n ∧ Yields shared takeSeed c n m := by
  unfold takeSeed Yields
  simp only [outcome_bind, outcome_get, andThen_ok]
  cases hseeds : c.seeds with
  | nil => exact ⟨0, .inr rfl, c, rfl, .refl c, h⟩
  | cons n ns =>
      have hn : IsSeed c n := .inl (by rw [hseeds]; exact List.mem_cons_self)
      cases ns with
      | nil => exact ⟨n, hn, c, rfl, .refl c, h⟩
      | cons k ks =>
          refine ⟨n, hn, { c with seeds := k :: ks }, rfl, ⟨rfl, rfl, fun seed hseed => ?_⟩, h⟩
          rw [hseeds]
          exact List.mem_cons_of_mem n hseed

/-- What a counter stands at: what is shown, or a seed when nothing is. -/
def Stands (c : Cache) (m : View) (key : String) (n : ℤ) : Prop :=
  m key = some (.int n, none) ∨ (m key = none ∧ IsSeed c n)

/-- A counter is there after it is read. -/
theorem readCounter_spec (h : Represents shared c m) {key : String}
    (hcounter : ∀ p, m key = some p → ∃ n, p = (.int n, none))
    (hseeds : ∀ n, IsSeed c n → Countable shared n) :
    ∃ n, Stands c m key n ∧ Yields shared (readCounter key) c n (m.set key (.int n) none) := by
  have hread := read_spec h key
  unfold readCounter
  rw [View.value] at hread
  cases hm : m key with
  | some p =>
      obtain ⟨n, rfl⟩ := hcounter p hm
      refine ⟨n, .inl hm, ?_⟩
      rw [View.set_eq_self hm]
      rw [hm] at hread
      refine yields_bind hread fun c₁ _ h₁ => ?_
      exact yields_bind (yields_lift h₁ rfl) fun c₂ _ h₂ => yields_pure h₂ n
  | none =>
      rw [hm] at hread
      obtain ⟨c₁, hrun, hs₁, h₁⟩ := hread
      obtain ⟨n, hn, htake⟩ := takeSeed_spec h₁
      have hseed := hs₁.isSeed hn
      refine ⟨n, .inr ⟨hm, hseed⟩, yields_after hrun hs₁ (yields_bind htake fun c₂ _ h₂ => ?_)⟩
      refine yields_bind (add_shown h₂ hm (hseeds n hseed).storable.givenBack (by simp))
        fun c₃ _ h₃ => ?_
      have hread' := read_spec h₃ key
      rw [View.value, View.set_same] at hread'
      refine yields_bind hread' fun c₄ _ h₄ => ?_
      exact yields_bind (yields_lift h₄ rfl) fun c₅ _ h₅ => yields_pure h₅ n

theorem bumpCounter_next {key : String} {n : ℤ}
    (hread : Yields shared (readCounter key) c n (m.set key (.int n) none))
    (hkept : Countable shared n) (hnext : Countable shared (n + 1)) :
    Yields shared (bumpCounter key) c (n + 1) (m.set key (.int (n + 1)) none) := by
  refine yields_bind hread fun c₁ _ h₁ => ?_
  have hinc := increment_spec h₁ (View.set_same m key (.int n) none) hkept hnext rfl
  rwa [View.set_set] at hinc

theorem bumpCounter_spec (h : Represents shared c m) {key : String}
    (hcounter : ∀ p, m key = some p → ∃ n, p = (.int n, none))
    (hseeds : ∀ n, IsSeed c n → Countable shared n)
    (hnext : ∀ n, Stands c m key n → Countable shared n ∧ Countable shared (n + 1)) :
    ∃ n, Stands c m key n ∧
      Yields shared (bumpCounter key) c (n + 1) (m.set key (.int (n + 1)) none) := by
  obtain ⟨n, hstands, hread⟩ := readCounter_spec h hcounter hseeds
  obtain ⟨hkept, hbumped⟩ := hnext n hstands
  exact ⟨n, hstands, bumpCounter_next hread hkept hbumped⟩

/-! ### Remembered answers -/

theorem remembered_spec (h : Represents shared c m) (key label : String) :
    Yields shared (remembered key label) c (m.value key) m := by
  unfold remembered
  refine yields_bind (read_spec h key) fun c₁ _ h₁ => ?_
  split
  · exact yields_bind (yields_note h₁ _ _ _ _) fun c₂ _ h₂ => yields_pure h₂ _
  · exact yields_pure h₁ _

theorem remember_shown (h : Represents shared c m) (key : String) {v w : Value}
    (hnull : v.isNull = false) (hvw : GivenBack shared v w) {ttl : Option ℤ}
    (httl : ∀ t, ttl = some t → 0 < t) :
    Yields shared (remember key v ttl) c () (m.set key w (expiry c.clock ttl)) := by
  unfold remember
  rw [hnull]
  exact write_shown h key hvw httl

theorem represents_advance (h : Represents shared c m) {seconds : ℤ} (hle : 0 ≤ seconds) :
    Represents shared { c with clock := c.clock + seconds } (m.fade (c.clock + seconds)) := by
  have hlater : c.clock ≤ c.clock + seconds := by omega
  unfold Represents at h ⊢
  cases hc : c.backend with
  | memory entries =>
      rw [hc] at h
      exact ⟨h.1, h.2.fade hlater⟩
  | remote store =>
      rw [hc] at h
      refine ⟨h.1, h.2.1, h.2.2.1.fade hlater, fun key p hp => ?_⟩
      exact h.2.2.2 key p (Option.filter_eq_some_iff.mp hp).1

end Cache
end AccessControl
