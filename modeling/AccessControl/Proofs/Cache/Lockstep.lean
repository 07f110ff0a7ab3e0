import AccessControl.Proofs.Cache.Clients
import Mathlib

/-! # Counters as numbers

What the clients see of a cache is one number, or none.  A step before a cache is a step at that
number (`Counts.step`), and only a few things can happen there (`System.Happens`).  So clients
before a cache and the same clients at the number go in step (`run_lockstep`), and what is
proved of runs at a number holds for both back ends.  A string store reads back numbers that are
not too long (`Roomy`). -/

namespace AccessControl
namespace Cache

/-- The next step of a call at a counter, and what becomes of the counter. -/
def Stage.next (ask : Ask) (clock : ℤ) (counter : Option ℤ) : Stage → (Stage ⊕ ℤ) × Option ℤ
  | .looking =>
    match counter with
    | some n => (settle ask n, counter)
    | none => (.inl .seeding, none)
  | .seeding => (.inl (.adding clock), counter)
  | .adding seed => (.inl .lookingAgain, some (counter.getD seed))
  | .lookingAgain =>
    match counter with
    | some n => (settle ask n, counter)
    | none => (.inl .missing, none)
  | .missing => (settle ask clock, counter)
  | .raising => (.inr (counter.getD 0 + 1), some (counter.getD 0 + 1))

/-- A counter that is a number, or is not there. -/
def numberServer : Server (Option ℤ) where
  step ask stage clock counter :=
    ((stage.next ask clock counter).1 |> .ok, (stage.next ask clock counter).2)
  evict _ := none
  pass _ counter := counter

/-- The cache shows the counter under a key. -/
def Counts (shared : Bool) (key : String) (c : Cache) (counter : Option ℤ) : Prop :=
  ∃ m, Represents shared c m ∧ m key = counter.map fun n => (.int n, none)

section Counts

variable {shared : Bool} {key : String} {c : Cache} {counter : Option ℤ}

theorem counts_emptyMemory (hc : c.backend = .memory []) : Counts false key c none :=
  ⟨_, represents_emptyMemory hc, rfl⟩

theorem counts_emptyRemote (hc : c.backend = .remote .empty) : Counts true key c none :=
  ⟨_, represents_emptyRemote hc, rfl⟩

theorem Counts.number (h : Counts shared key c counter) : number? key c = counter := by
  obtain ⟨m, hrep, hm⟩ := h
  obtain ⟨c', hrun, -, -⟩ := read_spec hrep key
  rw [number?, hrun, View.value, hm]
  cases counter <;> rfl

theorem Counts.evict (h : Counts shared key c counter) :
    Counts shared key ((cacheServer key).evict c) none := by
  obtain ⟨m, hrep, hm⟩ := h
  obtain ⟨c', hrun, -, hrep'⟩ := delete_spec hrep [key]
  refine ⟨_, by simpa only [cacheServer, hrun] using hrep', by simp [View.without]⟩

theorem Counts.pass (h : Counts shared key c counter) (seconds : ℕ) :
    Counts shared key ((cacheServer key).pass seconds c) counter := by
  obtain ⟨m, hrep, hm⟩ := h
  refine ⟨_, represents_advance hrep (Int.natCast_nonneg seconds), ?_⟩
  rw [View.fade, hm]
  cases counter <;> rfl

theorem represents_seeds {m : View} (h : Represents shared c m) (seeds : List ℤ) :
    Represents shared { c with seeds := seeds } m := h

theorem look_spec {m : View} (h : Represents shared c m)
    (hm : m key = counter.map fun n => (.int n, none)) (ask : Ask)
    (other : Stage) : Yields shared (do
      let value ← read key
      if !value.isNull then return settle ask (← value.toInt) else return .inl other) c
      (match counter with
        | some n => settle ask n
        | none => .inl other) m := by
  have hread := read_spec h key
  rw [View.value, hm] at hread
  refine yields_bind hread fun c₁ _ h₁ => ?_
  cases counter with
  | none => exact yields_pure h₁ _
  | some n => exact yields_bind (yields_lift h₁ rfl) fun c₂ _ h₂ => yields_pure h₂ _

theorem takeSeed_clock {m : View} (h : Represents shared c m) {clock : ℤ}
    (hseeds : c.seeds = [clock]) :
    Yields shared takeSeed c clock m := by
  unfold Yields takeSeed
  simp only [outcome_bind, outcome_get, andThen_ok, hseeds]
  exact ⟨c, rfl, .refl c, h⟩

/-- A step before the cache is the step at the counter that the cache shows. -/
theorem Counts.step (h : Counts shared key c counter) (ask : Ask) (stage : Stage) (clock : ℤ)
    (hadd : ∀ seed, stage = .adding seed → Countable shared seed)
    (hraise : ∀ n, counter = some n → Countable shared n ∧ Countable shared (n + 1)) :
    ∃ c', (cacheServer key).step ask stage clock c = (.ok (stage.next ask clock counter).1, c') ∧
      Counts shared key c' (stage.next ask clock counter).2 := by
  obtain ⟨m, hrep, hm⟩ := h
  have hrep' := represents_seeds hrep [clock]
  suffices hyields : ∃ m', Yields shared (stage.step ask key) { c with seeds := [clock] }
      (stage.next ask clock counter).1 m' ∧ m' key = (stage.next ask clock counter).2.map fun n =>
        (.int n, none) by
    obtain ⟨m', ⟨c', hrun, -, hshown⟩, hm'⟩ := hyields
    exact ⟨c', hrun, m', hshown, hm'⟩
  cases stage with
  | looking =>
      refine ⟨m, ?_, ?_⟩
      · have hlook := look_spec hrep' hm ask .seeding
        cases counter <;> exact hlook
      · cases counter <;> exact hm
  | seeding =>
      exact ⟨m, yields_bind (takeSeed_clock hrep' rfl) fun c₁ _ h₁ => yields_pure h₁ _, hm⟩
  | adding seed =>
      cases counter with
      | none =>
          have hkept : GivenBack shared (.int seed) (.int seed) :=
            (hadd seed rfl).storable.givenBack
          exact ⟨_,
            yields_bind (add_shown hrep' hm hkept (by simp)) fun c₁ _ h₁ => yields_pure h₁ _,
            View.set_same m key _ _⟩
      | some n =>
          exact ⟨m, yields_bind (add_taken hrep' hm _ _) fun c₁ _ h₁ => yields_pure h₁ _, hm⟩
  | lookingAgain =>
      refine ⟨m, ?_, ?_⟩
      · have hlook := look_spec hrep' hm ask .missing
        cases counter <;> exact hlook
      · cases counter <;> exact hm
  | missing =>
      exact ⟨m, yields_bind (takeSeed_clock hrep' rfl) fun c₁ _ h₁ => yields_pure h₁ _, hm⟩
  | raising =>
      cases counter with
      | none =>
          exact ⟨_, yields_bind (increment_free hrep' hm) fun c₁ _ h₁ => yields_pure h₁ _,
            View.set_same m key _ _⟩
      | some n =>
          obtain ⟨hkept, hnext⟩ := hraise n rfl
          exact ⟨_,
            yields_bind (increment_spec hrep' hm hkept hnext rfl) fun c₁ _ h₁ => yields_pure h₁ _,
            View.set_same m key _ _⟩

end Counts

/-! ### Going in step -/

/-- No number of a system is further from zero. -/
structure Within (bound : ℕ) (s : System (Option ℤ)) : Prop where
  counter : ∀ n, s.store = some n → n.natAbs ≤ bound
  seeds : ∀ client call seed, s.calls client = some call → call.stage = .adding seed →
      seed.natAbs ≤ bound

/-- No clock shows a number that is further from zero. -/
def ClocksWithin (bound : ℕ) (actions : List Action) : Prop :=
  ∀ client clock, Action.turn client clock ∈ actions → clock.natAbs ≤ bound

/-- All numbers that actions can come to have few enough digits for the back end. -/
def Roomy (shared : Bool) (counter : Option ℤ) (actions : List Action) : Prop :=
  shared = true → ∃ bound, (∀ n, counter = some n → n.natAbs ≤ bound) ∧ ClocksWithin bound actions ∧
    bound + actions.length < 10 ^ Text.digitLimit

theorem roomy_memory (counter : Option ℤ) (actions : List Action) : Roomy false counter actions :=
  fun hshared => absurd hshared Bool.false_ne_true

theorem Roomy.left {shared : Bool} {counter : Option ℤ} {actions more : List Action}
    (h : Roomy shared counter (actions ++ more)) : Roomy shared counter actions := by
  intro hshared
  obtain ⟨bound, hcounter, hclocks, hdigits⟩ := h hshared
  rw [List.length_append] at hdigits
  exact ⟨bound, hcounter,
    fun client clock hmem => hclocks client clock (List.mem_append_left _ hmem), by omega⟩

theorem Within.start {bound : ℕ} {counter : Option ℤ}
    (h : ∀ n, counter = some n → n.natAbs ≤ bound) :
    Within bound (System.start counter) := ⟨h, fun client call seed hcall _ => by cases hcall⟩

theorem next_adding {ask : Ask} {clock : ℤ} {counter : Option ℤ} {stage : Stage} {seed : ℤ}
    (h : (stage.next ask clock counter).1 = .inl (.adding seed)) : seed = clock := by
  unfold Stage.next at h
  cases stage with
  | seeding => simpa using h.symm
  | adding seed => cases h
  | raising => cases h
  | missing => cases ask <;> cases h
  | looking => cases counter <;> cases ask <;> cases h
  | lookingAgain => cases counter <;> cases ask <;> cases h

/-- A step leaves the counter, or sets it to a seed, or raises it. -/
theorem next_counter {ask : Ask} {clock : ℤ} {counter : Option ℤ} {stage : Stage} {n : ℤ}
    (h : (stage.next ask clock counter).2 = some n) :
    counter = some n ∨ stage = .adding n ∨ n = counter.getD 0 + 1 := by
  unfold Stage.next at h
  cases stage with
  | seeding => exact .inl h
  | adding seed =>
      cases counter with
      | none => exact .inr (.inl (congrArg Stage.adding (Option.some.inj h)))
      | some k => exact .inl h
  | raising => exact .inr (.inr (Option.some.inj h).symm)
  | missing => exact .inl h
  | looking => cases counter <;> exact .inl h
  | lookingAgain => cases counter <;> exact .inl h

namespace System

/-- The same, a moment later. -/
def tick {σ : Type} (s : System σ) : System σ := { s with moment := s.moment + 1 }

/-- The answer to a call, which is over. -/
def answer {σ : Type} (s : System σ) (client : ℕ) (call : Pending) (number : ℤ) : System σ :=
  { s.setCall client none with answers := s.answers ++ [⟨call.ask, call.start, s.moment, number⟩] }

theorem setCall_calls {σ : Type} (s : System σ) (client : ℕ) (call : Option Pending) (other : ℕ) :
    (s.setCall client call).calls other = if other = client then call else s.calls other :=
  Function.update_apply ..

theorem answer_calls {σ : Type} (s : System σ) (client : ℕ) (call : Pending) (number : ℤ)
    (other : ℕ) :
    (s.answer client call number).calls other = if other = client then none else s.calls other :=
  setCall_calls s client none other

/-- What can happen at a counter. -/
inductive Happens (s : System (Option ℤ)) : Action → System (Option ℤ) → Prop
  | idle (action : Action)
      (hidle : ∀ client clock, action = .turn client clock → s.calls client = none) :
      Happens s action s.tick
  | begins (client : ℕ) (ask : Ask) (hfree : s.calls client = none) :
      Happens s (.begin client ask) (s.setCall client (some ⟨ask, s.moment, .looking⟩)).tick
  | evicted : Happens s .evict (s.withStore none).tick
  | goesOn (client : ℕ) (clock : ℤ) (call : Pending) (stage : Stage) (counter : Option ℤ)
      (hcall : s.calls client = some call)
        (hnext : call.stage.next call.ask clock s.store = (.inl stage, counter)) :
      Happens s (.turn client clock)
        ((s.withStore counter).setCall client (some { call with stage := stage })).tick
  | answers (client : ℕ) (clock : ℤ) (call : Pending) (number : ℤ) (counter : Option ℤ)
      (hcall : s.calls client = some call)
        (hnext : call.stage.next call.ask clock s.store = (.inr number, counter)) :
      Happens s (.turn client clock) ((s.withStore counter).answer client call number).tick

/-- Every action is one of these. -/
theorem happens (s : System (Option ℤ)) (action : Action) :
    Happens s action (s.act numberServer action) := by
  cases action with
  | begin client ask =>
      cases hcall : s.calls client with
      | none =>
          have hact :
              s.act numberServer (.begin client ask) =
              (s.setCall client (some ⟨ask, s.moment, .looking⟩)).tick := by
            simp only [act, happen, hcall]
            rfl
          exact hact ▸ .begins client ask hcall
      | some call =>
          have hact : s.act numberServer (.begin client ask) = s.tick := by
            simp only [act, happen, hcall]
            rfl
          exact hact ▸ .idle _ fun _ _ hturn => by cases hturn
  | turn client clock =>
      cases hcall : s.calls client with
      | none =>
          have hact : s.act numberServer (.turn client clock) = s.tick := by
            simp only [act, happen, hcall]
            rfl
          exact hact ▸ .idle _ fun _ _ hturn => by cases hturn; exact hcall
      | some call =>
          obtain ⟨⟨result, counter⟩, hnext⟩ :
            ∃ after, call.stage.next call.ask clock s.store = after := ⟨_, rfl⟩
          cases result with
          | inl stage =>
              have hact : s.act numberServer (.turn client clock) =
                  ((s.withStore counter).setCall client
                    (some { call with stage := stage })).tick := by
                simp only [act, happen, hcall, numberServer, hnext]
                rfl
              exact hact ▸ .goesOn client clock call stage counter hcall hnext
          | inr number =>
              have hact : s.act numberServer (.turn client clock) =
                  ((s.withStore counter).answer client call number).tick := by
                simp only [act, happen, hcall, numberServer, hnext]
                rfl
              exact hact ▸ .answers client clock call number counter hcall hnext
  | evict => exact .evicted
  | pass seconds => exact .idle _ fun _ _ hturn => by cases hturn

end System

theorem Within.next_le {bound : ℕ} {s : System (Option ℤ)} {client : ℕ} {clock : ℤ} {call : Pending}
    {result : Stage ⊕ ℤ} {counter : Option ℤ} (h : Within bound s)
    (hcall : s.calls client = some call)
    (hnext : call.stage.next call.ask clock s.store = (result, counter)) :
    ∀ n, counter = some n → n.natAbs ≤ bound + 1 := by
  intro n hn
  rcases next_counter (by rw [hnext, hn] : (call.stage.next call.ask clock s.store).2 = some n) with
    hn | hstage | hn
  · exact (h.counter n hn).trans (Nat.le_succ _)
  · exact (h.seeds client call n hcall hstage).trans (Nat.le_succ _)
  · cases hstore : s.store with
    | none =>
        rw [hstore] at hn
        simp [hn]
    | some k =>
        have hk := h.counter k hstore
        rw [hstore, Option.getD_some] at hn
        omega

/-- An action takes no number further from zero than by one. -/
theorem Within.happens {bound : ℕ} {s s' : System (Option ℤ)} {action : Action} (h : Within bound s)
    (hact : s.Happens action s')
    (hclock : ∀ client clock, action = .turn client clock → clock.natAbs ≤ bound) :
    Within (bound + 1) s' := by
  have hcounter : ∀ n, s.store = some n → n.natAbs ≤ bound + 1 :=
    fun n hn => (h.counter n hn).trans (Nat.le_succ _)
  have hseeds : ∀ client call seed, s.calls client = some call → call.stage = .adding seed →
      seed.natAbs ≤ bound + 1 :=
    fun client call seed hcall hstage =>
      (h.seeds client call seed hcall hstage).trans (Nat.le_succ _)
  cases hact with
  | idle => exact ⟨hcounter, hseeds⟩
  | begins client ask hfree =>
      refine ⟨hcounter, fun other call seed hcall hstage => ?_⟩
      rw [System.tick, System.setCall_calls] at hcall
      split at hcall
      · obtain rfl := Option.some.inj hcall
        cases hstage
      · exact hseeds other call seed hcall hstage
  | evicted => exact ⟨fun n hn => absurd hn.symm (Option.some_ne_none n), hseeds⟩
  | goesOn client clock call stage counter hcall hnext =>
      refine ⟨h.next_le hcall hnext, fun other pending seed hpending hstage => ?_⟩
      rw [System.tick, System.setCall_calls] at hpending
      split at hpending
      · obtain rfl := Option.some.inj hpending
        have hadding : (call.stage.next call.ask clock s.store).1 = .inl (.adding seed) := by
          rw [hnext]
          exact congrArg Sum.inl hstage
        rw [next_adding hadding]
        exact (hclock client clock rfl).trans (Nat.le_succ _)
      · exact hseeds other pending seed hpending hstage
  | answers client clock call number counter hcall hnext =>
      refine ⟨h.next_le hcall hnext, fun other pending seed hpending hstage => ?_⟩
      rw [System.tick, System.answer_calls] at hpending
      split at hpending
      · cases hpending
      · exact hseeds other pending seed hpending hstage

theorem Within.countable {shared : Bool} {bound : ℕ} {s : System (Option ℤ)} (h : Within bound s)
    (hdigits : bound + 1 < 10 ^ Text.digitLimit) :
    (∀ client call seed, s.calls client = some call → call.stage = .adding seed →
      Countable shared seed) ∧
      ∀ n, s.store = some n → Countable shared n ∧ Countable shared (n + 1) := by
  have hshort : ∀ n : ℤ, n.natAbs ≤ bound + 1 → Countable shared n :=
    fun n hn _ => hn.trans_lt hdigits
  refine ⟨fun client call seed hcall hstage => hshort seed ?_,
    fun n hn => ⟨hshort n ?_, hshort (n + 1) ?_⟩⟩
  · exact (h.seeds client call seed hcall hstage).trans (Nat.le_succ _)
  · exact (h.counter n hn).trans (Nat.le_succ _)
  · have := h.counter n hn
    omega

variable {shared : Bool} {key : String} {c : Cache} {s : System (Option ℤ)}

/-- Before a cache that shows the counter, the same happens as at the counter. -/
theorem act_lockstep (h : Counts shared key c s.store)
    (hseeds : ∀ client call seed, s.calls client = some call → call.stage = .adding seed →
      Countable shared seed)
    (hcounter : ∀ n, s.store = some n → Countable shared n ∧ Countable shared (n + 1))
    (action : Action) :
    ∃ c', (s.withStore c).act (cacheServer key) action = (s.act numberServer action).withStore c' ∧
      Counts shared key c' (s.act numberServer action).store := by
  cases action with
  | begin client ask =>
      refine ⟨c, ?_, ?_⟩
      · simp only [System.act, System.happen, System.withStore]
        split <;> rfl
      · simp only [System.act, System.happen]
        split <;> exact h
  | turn client clock =>
      cases hcall : s.calls client with
      | none =>
          have hcall' : (s.withStore c).calls client = none := hcall
          refine ⟨c, ?_, ?_⟩
          · simp only [System.act, System.happen, hcall, hcall']
            rfl
          · simp only [System.act, System.happen, hcall]
            exact h
      | some call =>
          have hcall' : (s.withStore c).calls client = some call := hcall
          obtain ⟨c', hstep, hcounts⟩ :=
            h.step call.ask call.stage clock (fun seed => hseeds client call seed hcall) hcounter
          refine ⟨c', ?_, ?_⟩
          · have hstep' : (cacheServer key).step call.ask call.stage clock (s.withStore c).store =
                _ := hstep
            simp only [System.act, System.happen, hcall, hcall', hstep', numberServer]
            generalize (call.stage.next call.ask clock s.store).1 = result
            cases result <;> rfl
          · simp only [System.act, System.happen, hcall, numberServer]
            generalize (call.stage.next call.ask clock s.store).1 = result
            cases result <;> exact hcounts
  | evict => exact ⟨(cacheServer key).evict c, rfl, h.evict⟩
  | pass seconds => exact ⟨(cacheServer key).pass seconds c, rfl, h.pass seconds⟩

/-- The numbers of a system stay short enough under actions. -/
def Fits (shared : Bool) (actions : List Action) (s : System (Option ℤ)) : Prop :=
  shared = true → ∃ bound, Within bound s ∧ ClocksWithin bound actions ∧
    bound + actions.length < 10 ^ Text.digitLimit

theorem Roomy.fits {counter : Option ℤ} {actions : List Action} (h : Roomy shared counter actions) :
    Fits shared actions (System.start counter) := by
  intro hshared
  obtain ⟨bound, hcounter, hclocks, hdigits⟩ := h hshared
  exact ⟨bound, .start hcounter, hclocks, hdigits⟩

theorem Fits.tail {action : Action} {actions : List Action}
    (h : Fits shared (action :: actions) s) :
    Fits shared actions (s.act numberServer action) := by
  intro hshared
  obtain ⟨bound, hwithin, hclocks, hdigits⟩ := h hshared
  rw [List.length_cons] at hdigits
  refine ⟨bound + 1, ?_, fun client clock hmem => ?_, by omega⟩
  · exact hwithin.happens (s.happens action) fun client clock hturn =>
      hclocks client clock (by simp [hturn])
  · exact (hclocks client clock (List.mem_cons_of_mem action hmem)).trans (Nat.le_succ _)

theorem Fits.act_lockstep {action : Action} {actions : List Action}
    (hfits : Fits shared (action :: actions) s) (h : Counts shared key c s.store) :
    ∃ c', (s.withStore c).act (cacheServer key) action = (s.act numberServer action).withStore c' ∧
      Counts shared key c' (s.act numberServer action).store := by
  cases shared with
  | false =>
      exact Cache.act_lockstep h (fun _ _ seed _ _ => countable_memory seed)
        (fun n _ => ⟨countable_memory n, countable_memory (n + 1)⟩) action
  | true =>
      obtain ⟨bound, hwithin, -, hdigits⟩ := hfits rfl
      rw [List.length_cons] at hdigits
      obtain ⟨hseeds, hcounter⟩ := hwithin.countable (by omega)
      exact Cache.act_lockstep h hseeds hcounter action

/-- Clients before a cache that shows a counter do as clients at that counter, and see the same. -/
theorem run_lockstep {actions : List Action} (hfits : Fits shared actions s)
    (h : Counts shared key c s.store) :
    (s.withStore c).history (cacheServer key) actions = s.history numberServer actions ∧
      ∃ c', (s.withStore c).run (cacheServer key) actions =
        (s.run numberServer actions).withStore c' ∧
        Counts shared key c' (s.run numberServer actions).store := by
  induction actions generalizing s c with
  | nil => exact ⟨rfl, c, rfl, h⟩
  | cons action actions ih =>
      obtain ⟨c₁, hact, hcounts⟩ := hfits.act_lockstep h
      obtain ⟨hhistory, c', hrun, hcounts'⟩ := ih hfits.tail hcounts
      refine ⟨?_, c', ?_, hcounts'⟩
      · rw [System.history, System.history, hact, hhistory]
        rfl
      · rw [System.run, List.foldl_cons, hact]
        exact hrun

theorem start_lockstep {counter : Option ℤ} (h : Counts shared key c counter)
    {actions : List Action} (hroom : Roomy shared counter actions) :
    (System.start c).history (cacheServer key) actions =
      (System.start counter).history numberServer actions ∧
      ∃ c', (System.start c).run (cacheServer key) actions =
          ((System.start counter).run numberServer actions).withStore c' ∧
        number? key c' = ((System.start counter).run numberServer actions).store := by
  obtain ⟨hhistory, c', hrun, hcounts⟩ := run_lockstep (s := System.start counter) hroom.fits h
  exact ⟨hhistory, c', hrun, hcounts.number⟩

end Cache
end AccessControl
