import AccessControl.Cache.Decisions
import AccessControl.Proofs.Cache.Operations
import Mathlib

/-! # Operations over a string store that refuses calls

A string store may be out of reach, for all calls or for those with some numbers (`Outage`).  An
operation is exposed when the first call that is refused ends it with the failure of that call, and
an outage that refuses none of its calls changes nothing (`Exposed`).  What is put together from
exposed operations is exposed (`exposed_bind`), and so are the reads and writes of a cache and its
counters.  The notion is about any state that has a cache in it. -/

namespace AccessControl

open Cache

variable {σ α β : Type}

/-! ### Outages -/

/-- The calls that a string store refuses: all of them, or those with some numbers. -/
structure Outage where
  down : Bool
  faults : List ℕ

namespace Outage

/-- No call is refused. -/
def none : Outage := ⟨false, []⟩

/-- Is the call with a number refused? -/
def refuses (o : Outage) (number : ℕ) : Bool := o.down || o.faults.contains number

/-- The first of some calls that is refused, where so many calls were made before them. -/
def firstRefused (o : Outage) (before : ℕ) : List Call → Option Call
  | [] => Option.none
  | call :: calls => if o.refuses (before + 1) then some call else o.firstRefused (before + 1) calls

theorem firstRefused_append (o : Outage) (before : ℕ) (xs ys : List Call) :
    o.firstRefused before (xs ++ ys) =
      (o.firstRefused before xs).or (o.firstRefused (before + xs.length) ys) := by
  induction xs generalizing before with
  | nil => rfl
  | cons call xs ih =>
    simp only [List.cons_append, firstRefused, List.length_cons, ih]
    split
    · rfl
    · rw [Nat.add_assoc, Nat.add_comm 1]

theorem firstRefused_eq_none_iff {o : Outage} {before : ℕ} {calls : List Call} :
    o.firstRefused before calls = Option.none ↔
      ∀ n, 1 ≤ n → n ≤ calls.length → o.refuses (before + n) = false := by
  induction calls generalizing before with
  | nil => exact iff_of_true rfl fun n h₁ h₂ => absurd (h₁.trans h₂) (by simp)
  | cons call calls ih =>
    rw [firstRefused]
    by_cases hfirst : o.refuses (before + 1)
    · rw [if_pos hfirst]
      refine iff_of_false nofun fun h => ?_
      rw [h 1 le_rfl (by simp)] at hfirst
      cases hfirst
    · rw [if_neg hfirst, ih]
      have hfirst := Bool.eq_false_iff.mpr hfirst
      constructor
      · intro h n h₁ h₂
        obtain ⟨k, rfl⟩ : ∃ k, n = 1 + k := ⟨n - 1, by omega⟩
        rw [List.length_cons] at h₂
        rcases Nat.eq_zero_or_pos k with rfl | hk
        · exact hfirst
        · rw [← Nat.add_assoc]
          exact h k hk (by omega)
      · intro h n h₁ h₂
        rw [Nat.add_assoc]
        exact h (1 + n) (by omega) (by rw [List.length_cons]; omega)

end Outage

/-- The failure of a call that is refused. -/
def Cache.Call.failure : Call → Failure
  | .get key => readFailure key
  | .set key _ _ _ => writeFailure key
  | .increment key => incrementFailure key
  | .delete _ => deleteFailure

namespace Cache

/-- The string store in an outage. -/
def Remote.under (store : Remote) (o : Outage) : Remote :=
  { store with down := o.down, faults := o.faults }

/-- The back end in an outage, of which memory knows nothing. -/
def Backend.under (o : Outage) : Backend → Backend
  | .memory entries => .memory entries
  | .remote store => .remote (store.under o)

end Cache

/-- The cache in an outage of its string store. -/
def Cache.under (c : Cache) (o : Outage) : Cache := { c with backend := c.backend.under o }

/-- The calls to the string store so far. -/
def Cache.calls (c : Cache) : List Call :=
  match c.backend with
  | .memory _ => []
  | .remote store => store.calls

@[simp] theorem Cache.calls_under (c : Cache) (o : Outage) : (c.under o).calls = c.calls := by
  unfold Cache.calls Cache.under
  cases c.backend with
  | memory entries => rfl
  | remote store => rfl

/-- The number of calls to the string store so far. -/
def Cache.served (c : Cache) : ℕ :=
  match c.backend with
  | .memory _ => 0
  | .remote store => store.served

/-! ### States with a cache -/

/-- States that have a cache in them. -/
class Caching (σ : Type) where
  /-- The cache of a state. -/
  cacheOf : σ → Cache
  /-- The state with another cache. -/
  putCache : Cache → σ → σ

export Caching (cacheOf putCache)

instance : Caching Cache := ⟨id, fun c _ => c⟩

/-- The state in an outage of its string store. -/
def strained [Caching σ] (o : Outage) (s : σ) : σ := putCache ((cacheOf s).under o) s

/-! ### Exposed operations -/

variable [Caching σ]

/-- How an operation goes from a state, whatever calls are refused: these are the calls it
makes when none is refused, the first refused one ends it with its failure, and refusing none
of them changes nothing. -/
structure Course (operation : ExceptT Failure (StateM σ) α) (s : σ) (r : Except Failure α) (s' : σ)
    (made : List Call) : Prop where
  calls : (cacheOf s').calls = (cacheOf s).calls ++ made
  served : (cacheOf s').served = (cacheOf s).served + made.length
  answered (o : Outage) (ho : o.firstRefused (cacheOf s).served made = none) :
    outcome operation (strained o s) = (r, strained o s')
  refused (o : Outage) (call : Call) (ho : o.firstRefused (cacheOf s).served made = some call) :
    (outcome operation (strained o s)).1 = .error call.failure

/-- The operation never does without a call that is refused. -/
def Exposed (operation : ExceptT Failure (StateM σ) α) : Prop :=
  ∀ s, ∃ r s' made, Course operation s r s' made

theorem Course.still {operation : ExceptT Failure (StateM σ) α} {s : σ} {r : Except Failure α}
    {s' : σ} (hbackend : (cacheOf s').backend = (cacheOf s).backend)
    (hrun : ∀ o, outcome operation (strained o s) = (r, strained o s')) :
    Course operation s r s' [] where
  calls := by rw [Cache.calls, hbackend, List.append_nil, Cache.calls]
  served := by rw [Cache.served, hbackend, List.length_nil, Nat.add_zero, Cache.served]
  answered o _ := hrun o
  refused _ _ ho := nomatch ho

theorem Course.fail {x : ExceptT Failure (StateM σ) α} {s s' : σ} {e : Failure} {made : List Call}
    (h : Course x s (.error e) s' made) (f : α → ExceptT Failure (StateM σ) β) :
    Course (x >>= f) s (.error e) s' made where
  calls := h.calls
  served := h.served
  answered o ho := by rw [outcome_bind, h.answered o ho, andThen_error]
  refused o call ho := by
    rw [outcome_bind, ← Prod.mk.eta (p := outcome x (strained o s)), h.refused o call ho,
      andThen_error]

theorem Course.bind {x : ExceptT Failure (StateM σ) α} {f : α → ExceptT Failure (StateM σ) β}
    {s s₁ s₂ : σ} {a : α} {r : Except Failure β} {first rest : List Call}
    (hx : Course x s (.ok a) s₁ first) (hf : Course (f a) s₁ r s₂ rest) :
    Course (x >>= f) s r s₂ (first ++ rest) where
  calls := by rw [hf.calls, hx.calls, List.append_assoc]
  served := by rw [hf.served, hx.served, List.length_append, Nat.add_assoc]
  answered o ho := by
    rw [Outage.firstRefused_append, ← hx.served, Option.or_eq_none_iff] at ho
    rw [outcome_bind, hx.answered o ho.1, andThen_ok, hf.answered o ho.2]
  refused o call ho := by
    rw [Outage.firstRefused_append, ← hx.served, Option.or_eq_some_iff] at ho
    rcases ho with ho | ⟨hnone, ho⟩
    · rw [outcome_bind, ← Prod.mk.eta (p := outcome x (strained o s)), hx.refused o call ho,
        andThen_error]
    · rw [outcome_bind, hx.answered o hnone, andThen_ok]
      exact hf.refused o call ho

theorem exposed_bind {x : ExceptT Failure (StateM σ) α} {f : α → ExceptT Failure (StateM σ) β}
    (hx : Exposed x) (hf : ∀ a, Exposed (f a)) : Exposed (x >>= f) := by
  intro s
  obtain ⟨r, s₁, first, hcourse⟩ := hx s
  cases r with
  | error e => exact ⟨_, _, _, hcourse.fail f⟩
  | ok a =>
    obtain ⟨r, s₂, rest, hrest⟩ := hf a s₁
    exact ⟨r, s₂, _, hcourse.bind hrest⟩

theorem exposed_pure (a : α) : Exposed (pure a : ExceptT Failure (StateM σ) α) :=
  fun s => ⟨.ok a, s, [], .still rfl fun _ => rfl⟩

theorem exposed_lift (x : Except Failure α) : Exposed (liftM x : ExceptT Failure (StateM σ) α) :=
  fun s => ⟨x, s, [], .still rfl fun _ => rfl⟩

theorem exposed_throw (e : Failure) : Exposed (throw e : ExceptT Failure (StateM σ) α) :=
  fun s => ⟨.error e, s, [], .still rfl fun _ => rfl⟩

theorem exposed_get {f : σ → ExceptT Failure (StateM σ) α} (hsame : ∀ o s, f (strained o s) = f s)
    (hf : ∀ s, Exposed (f s)) : Exposed (get >>= f) := by
  intro s
  obtain ⟨r, s', made, h⟩ := hf s s
  have hget : ∀ o, outcome (get >>= f) (strained o s) = outcome (f s) (strained o s) := fun o => by
    rw [outcome_bind, outcome_get, andThen_ok, hsame]
  exact ⟨r, s', made, h.calls, h.served, fun o ho => (hget o).trans (h.answered o ho),
    fun o call ho => (congrArg Prod.fst (hget o)).trans (h.refused o call ho)⟩

theorem exposed_modify {f : σ → σ} (hbackend : ∀ s, (cacheOf (f s)).backend = (cacheOf s).backend)
    (hsame : ∀ o s, f (strained o s) = strained o (f s)) :
    Exposed (modify f : ExceptT Failure (StateM σ) PUnit) :=
  fun s => ⟨.ok ⟨⟩, f s, [], .still (hbackend s) fun o => by rw [outcome_modify, hsame]⟩

theorem exposed_map (f : α → β) {x : ExceptT Failure (StateM σ) α} (hx : Exposed x) :
    Exposed (f <$> x) := by
  rw [map_eq_pure_bind]
  exact exposed_bind hx fun a => exposed_pure (f a)

namespace Cache

/-! ### Operations of a cache -/

/-- What a store in an outage does with a call. -/
theorem outcome_reach_under (c : Cache) (store : Remote) (o : Outage) (call : Call)
    (failure : Failure) :
    outcome (reach (store.under o) call failure) c =
      let store := { store.under o with calls := store.calls ++ [call], served := store.served + 1 }
      if o.refuses store.served then (.error failure, { c with backend := .remote store })
      else
        let store := { store with entries := store.entries.live c.clock }
        (.ok store, { c with backend := .remote store }) := by
  unfold reach
  rw [outcome_bind]
  by_cases hrefuses : o.refuses (store.served + 1)
  · rw [if_pos hrefuses]
    exact congrArg (fun x => outcome x _) (if_pos hrefuses)
  · rw [if_neg hrefuses]
    exact congrArg (fun x => outcome x _) (if_neg hrefuses)

theorem strained_memory (o : Outage) {c : Cache} {entries : Entries Value}
    (hc : c.backend = .memory entries) :
    strained o c = c := by
  change { c with backend := c.backend.under o } = c
  rw [hc]
  exact congrArg (fun b => { c with backend := b }) hc.symm

/-- Memory is asked without a call, and a string store with one, which is all that an outage can
reach. -/
theorem exposed_asking {operation : CacheM α} (call : Call) (next : ℤ → Remote → CacheM α)
    (hmemory : ∀ (c : Cache) entries, c.backend = .memory entries →
      ∃ entries', (outcome operation c).2.backend = .memory entries')
    (hremote : ∀ (c : Cache) (store : Remote), c.backend = .remote store →
      outcome operation c = outcome (reach store call call.failure >>= next c.clock) c)
    (hnext : ∀ (c : Cache) (store : Remote), ∃ r entries records, ∀ o : Outage,
      outcome (next c.clock (store.under o))
      { c with backend := .remote (store.under o) } =
      (r, { c with
        backend := .remote { store.under o with entries := entries }
        records := records })) :
    Exposed operation := by
  intro c
  cases hc : c.backend with
  | memory entries =>
    obtain ⟨entries', hafter⟩ := hmemory c entries hc
    refine ⟨(outcome operation c).1, (outcome operation c).2, [], ⟨?_, ?_, fun o _ => ?_, nofun⟩⟩
    · simp [cacheOf, Cache.calls, hc, hafter]
    · simp [cacheOf, Cache.served, hc, hafter]
    · rw [strained_memory o hc, strained_memory o hafter]
  | remote store =>
    have hstrained : ∀ o, strained o c = { c with backend := .remote (store.under o) } :=
      fun o => by
      change { c with backend := c.backend.under o } = _
      rw [hc]
      rfl
    have hserved : (cacheOf c).served = store.served := by simp [cacheOf, Cache.served, hc]
    -- The store after the call, when the call is answered.
    let asked : Remote :=
      { store with
        entries := store.entries.live c.clock
        calls := store.calls ++ [call]
        served := store.served + 1 }
    obtain ⟨r, entries, records, hrun⟩ := hnext c asked
    refine ⟨r, { c with backend := .remote { asked with entries := entries }, records := records },
      [call], ⟨?_, ?_, fun o ho => ?_, fun o call' ho => ?_⟩⟩
    · simp [cacheOf, Cache.calls, hc, asked]
    · simp [cacheOf, Cache.served, hc, asked]
    · have hrefuses : ¬o.refuses (store.served + 1) := fun hrefuses => by
        rw [Outage.firstRefused, hserved, if_pos hrefuses] at ho
        cases ho
      rw [hstrained, hremote _ _ rfl, outcome_bind, outcome_reach_under]
      simp only [if_neg hrefuses, andThen_ok]
      exact hrun o
    · rw [Outage.firstRefused, hserved] at ho
      split at ho
      · next hrefuses =>
        obtain rfl := Option.some.inj ho
        rw [hstrained, hremote _ _ rfl, outcome_bind, outcome_reach_under]
        simp only [if_pos hrefuses, andThen_error]
      · cases ho

theorem exposed_note (level : Log.Level) (channel : Log.Channel) (event : String)
    (details : Fields) :
    Exposed (note level channel event details) :=
  exposed_modify (fun _ => rfl) fun _ _ => rfl

theorem exposed_takeSeed : Exposed takeSeed := by
  refine exposed_get (fun _ _ => rfl) fun c => ?_
  split
  · exact exposed_pure 0
  · exact exposed_pure _
  · exact exposed_bind (exposed_modify (fun _ => rfl) fun _ _ => rfl) fun _ => exposed_pure _

theorem exposed_read (key : String) : Exposed (read key) := by
  refine exposed_asking (.get key) (fun now store =>
    (store.entries.find now key).1.elim (return .null) fun e => decode e.value)
    (fun c entries hc => ?_) (fun c store hc => ?_) fun c store => ?_
  · unfold read
    rw [outcome_bind, outcome_get, andThen_ok, hc]
    exact ⟨_, rfl⟩
  · unfold read
    rw [outcome_bind, outcome_get, andThen_ok, hc]
    refine congrArg (fun next => outcome (reach store (.get key) (readFailure key) >>= next) c)
      (funext fun store => ?_)
    cases (store.entries.find c.clock key).1 <;> rfl
  · simp only [Remote.under]
    cases (store.entries.find c.clock key).1 with
    | none => exact ⟨.ok .null, store.entries, c.records, fun o => rfl⟩
    | some e =>
      simp only [Option.elim_some]
      cases hread : Value.ofJson e.value with
      | ok v =>
        refine ⟨.ok v, store.entries, c.records, fun o => ?_⟩
        simp only [decode, hread, outcome_pure]
      | error _ =>
        refine ⟨.ok .null, store.entries,
          c.records ++ [⟨.warning, .backend, "authz.cache.decode_failed", []⟩], fun o => ?_⟩
        simp only [decode, hread, outcome_bind, outcome_note, andThen_ok, outcome_pure]

theorem exposed_write (key : String) (value : Value) (ttl : Option ℤ) :
    Exposed (write key value ttl) := by
  refine exposed_asking (.set key value.toSortedJson ttl false) (fun now store => setRemote
    { store with entries := store.entries.put ⟨key, value.toSortedJson, expiry now ttl⟩ })
    (fun c entries hc => ?_) (fun c store hc => ?_) fun c store =>
      ⟨.ok (), store.entries.put ⟨key, value.toSortedJson, expiry c.clock ttl⟩, c.records,
       fun _ => rfl⟩
  · unfold write
    rw [outcome_bind, outcome_get, andThen_ok, hc]
    exact ⟨_, rfl⟩
  · unfold write
    rw [outcome_bind, outcome_get, andThen_ok, hc]
    rfl

theorem exposed_add (key : String) (value : Value) (ttl : Option ℤ) :
    Exposed (add key value ttl) := by
  refine exposed_asking (.set key value.toSortedJson ttl true)
    (fun now store =>
      if (store.entries.find now key).1.isSome then return false
      else do
        setRemote { store with
          entries := store.entries.put ⟨key, value.toSortedJson, expiry now ttl⟩ }
        return true)
    (fun c entries hc => ?_) (fun c store hc => ?_) fun c store => ?_
  · unfold add
    rw [outcome_bind, outcome_get, andThen_ok, hc]
    dsimp only
    split
    · exact ⟨_, rfl⟩
    · exact ⟨_, rfl⟩
  · unfold add
    rw [outcome_bind, outcome_get, andThen_ok, hc]
    rfl
  · by_cases htaken : (store.entries.find c.clock key).1.isSome
    · refine ⟨.ok false, store.entries, c.records, fun o => ?_⟩
      exact congrArg (fun x => outcome x _) (if_pos htaken)
    · refine ⟨.ok true, store.entries.put ⟨key, value.toSortedJson, expiry c.clock ttl⟩, c.records,
        fun o => ?_⟩
      exact congrArg (fun x => outcome x _) (if_neg htaken)

/-! ### Counters and answers -/

theorem exposed_readCounter (key : String) : Exposed (readCounter key) := by
  refine exposed_bind (exposed_read key) fun value => ?_
  split
  · exact exposed_lift _
  · refine exposed_bind exposed_takeSeed fun seed => ?_
    refine exposed_bind (exposed_add key _ none) fun _ => ?_
    refine exposed_bind (exposed_read key) fun value => ?_
    split
    · exact exposed_lift _
    · exact exposed_takeSeed

theorem exposed_rulesetVersion : Exposed rulesetVersion :=
  exposed_get (fun _ _ => rfl) fun _ => exposed_readCounter _

theorem exposed_currentPermissionsKey (user store : Value) :
    Exposed (currentPermissionsKey user store) := by
  refine exposed_bind (exposed_get (fun _ _ => rfl) fun _ => exposed_readCounter _) fun epoch => ?_
  exact exposed_get (fun _ _ => rfl) fun _ => exposed_pure _

theorem exposed_currentAllStoresKey (user : Value) : Exposed (currentAllStoresKey user) :=
  exposed_get (fun _ _ => rfl) fun _ => exposed_pure _

theorem exposed_remembered (key label : String) : Exposed (remembered key label) := by
  refine exposed_bind (exposed_read key) fun value => ?_
  split
  · exact exposed_bind (exposed_note _ _ _ _) fun _ => exposed_pure _
  · exact exposed_pure _

theorem exposed_remember (key : String) (value : Value) (ttl : Option ℤ) :
    Exposed (remember key value ttl) := by
  unfold remember
  split
  · exact exposed_pure _
  · exact exposed_write key value ttl

end Cache
end AccessControl
