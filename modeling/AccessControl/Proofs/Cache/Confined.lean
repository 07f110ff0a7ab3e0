import AccessControl.Cache.Decisions
import AccessControl.Proofs.Session.Outcome
import Mathlib

/-! # What operations of a cache leave alone

Whatever becomes of an operation of a cache, the cache keeps its space, and a failure is never about
rules (`Confined`).  This needs no back end that answers: it holds of the counters for every cache
(`confined_readCounter`, `confined_bumpVersion`). -/

namespace AccessControl

/-- The failure is about rules: one is refused, or is not there. -/
inductive Failure.OfRules : Failure → Prop
  | refused (errors : List String) : OfRules (.rule errors)
  | absent (id : String) : OfRules (.noRule id)

namespace Cache

variable {α β : Type}

/-- The cache keeps its space, and no failure is about rules. -/
structure Confined (operation : CacheM α) : Prop where
  space (c : Cache) : (outcome operation c).2.space = c.space
  failure (c : Cache) (e : Failure) (he : (outcome operation c).1 = .error e) : ¬e.OfRules

/-! ### Parts of operations -/

theorem confined_ok {operation : CacheM α}
    (h : ∀ c, ∃ a c', outcome operation c = (.ok a, c') ∧ c'.space = c.space) :
    Confined operation where
  space c := by
    obtain ⟨a, c', hrun, hspace⟩ := h c
    rw [hrun, hspace]
  failure c e he := by
    obtain ⟨a, c', hrun, -⟩ := h c
    rw [hrun] at he
    cases he

theorem confined_pure (a : α) : Confined (pure a : CacheM α) :=
  confined_ok fun c => ⟨a, c, rfl, rfl⟩

theorem confined_get : Confined (get : CacheM Cache) := confined_ok fun c => ⟨c, c, rfl, rfl⟩

theorem confined_lift {x : Except Failure α} (hx : ∀ e, x = .error e → ¬e.OfRules) :
    Confined (liftM x : CacheM α) where
  space _ := rfl
  failure _ e he := hx e he

theorem confined_throw {e : Failure} (he : ¬e.OfRules) : Confined (throw e : CacheM α) where
  space _ := rfl
  failure _ e' he' := by
    obtain rfl : e = e' := Except.error.inj he'
    exact he

theorem confined_bind {x : CacheM α} {f : α → CacheM β} (hx : Confined x)
    (hf : ∀ a, Confined (f a)) :
    Confined (x >>= f) where
  space c := by
    have hspace := hx.space c
    rw [outcome_bind]
    revert hspace
    rcases outcome x c with ⟨_ | a, c'⟩
    · exact id
    · exact ((hf a).space c').trans
  failure c e := by
    have hfailure := hx.failure c e
    rw [outcome_bind]
    revert hfailure
    rcases outcome x c with ⟨e' | a, c'⟩
    · intro hfailure he
      obtain rfl : e' = e := Except.error.inj he
      exact hfailure rfl
    · exact fun _ => (hf a).failure c' e

theorem confined_setMemory (entries : Entries Value) : Confined (setMemory entries) :=
  confined_ok fun c => ⟨(), { c with backend := .memory entries }, rfl, rfl⟩

theorem confined_setRemote (store : Remote) : Confined (setRemote store) :=
  confined_ok fun c => ⟨(), { c with backend := .remote store }, rfl, rfl⟩

theorem confined_note (level : Log.Level) (channel : Log.Channel) (event : String)
    (details : Fields) :
    Confined (note level channel event details) :=
  confined_ok fun c => ⟨(), { c with records := c.records ++ [⟨level, channel, event, details⟩] },
    rfl, rfl⟩

theorem confined_reach (store : Remote) (call : Call) {failure : Failure}
    (hfailure : ¬failure.OfRules) :
    Confined (reach store call failure) := by
  unfold reach
  refine confined_bind (confined_setRemote _) fun _ => ?_
  split
  · exact confined_throw hfailure
  · refine confined_bind confined_get fun c => ?_
    exact confined_bind (confined_setRemote _) fun _ => confined_pure _

/-! ### Operations -/

theorem confined_takeSeed : Confined takeSeed := by
  refine confined_bind confined_get fun c => ?_
  split
  · exact confined_pure 0
  · exact confined_pure _
  · refine confined_bind (confined_ok fun c => ⟨⟨⟩, _, rfl, rfl⟩) fun _ => confined_pure _

theorem confined_decode (text : String) : Confined (decode text) := by
  unfold decode
  split
  · exact confined_pure _
  · exact confined_bind (confined_note _ _ _ _) fun _ => confined_pure _

theorem confined_read (key : String) : Confined (read key) := by
  refine confined_bind confined_get fun c => ?_
  split
  · exact confined_bind (confined_setMemory _) fun _ => confined_pure _
  · refine confined_bind (confined_reach _ _ nofun) fun store => ?_
    split
    · exact confined_decode _
    · exact confined_pure _

theorem confined_add (key : String) (value : Value) (ttl : Option ℤ) :
    Confined (add key value ttl) := by
  refine confined_bind confined_get fun c => ?_
  split
  · dsimp only
    split
    · exact confined_bind (confined_setMemory _) fun _ => confined_pure _
    · exact confined_bind (confined_setMemory _) fun _ => confined_pure _
  · refine confined_bind (confined_reach _ _ nofun) fun store => ?_
    split
    · exact confined_pure _
    · exact confined_bind (confined_setRemote _) fun _ => confined_pure _

theorem confined_increment (key : String) : Confined (increment key) := by
  refine confined_bind confined_get fun c => ?_
  split
  · refine confined_bind (confined_setMemory _) fun _ => ?_
    split
    · exact confined_bind (confined_setMemory _) fun _ => confined_pure _
    · split
      · exact confined_bind (confined_setMemory _) fun _ => confined_pure _
      · exact confined_throw nofun
  · refine confined_bind (confined_reach _ _ nofun) fun store => ?_
    dsimp only
    -- A counter that is not there counts from nought; either way a text is read, counted up and
    -- kept.
    split
    all_goals
      split
      · exact confined_throw nofun
      · split
        · exact confined_throw nofun
        · exact confined_bind (confined_setRemote _) fun _ => confined_pure _

/-! ### Counters -/

/-- A value that is no number says nothing about rules. -/
theorem confined_toInt (v : Value) : Confined (liftM v.toInt : CacheM ℤ) := by
  refine confined_lift fun e he => ?_
  unfold Value.toInt at he
  split at he
  · cases he
  · cases he
  · cases he
    nofun
  · split at he
    · cases he
    · cases he
      nofun
  · next s =>
      cases hread : Text.readInt s with
      | ok n =>
          rw [hread] at he
          cases he
      | error fault =>
          rw [hread] at he
          cases he
          nofun
  · cases he
    nofun

theorem confined_readCounter (key : String) : Confined (readCounter key) := by
  refine confined_bind (confined_read key) fun value => ?_
  split
  · exact confined_toInt value
  · refine confined_bind confined_takeSeed fun seed => ?_
    refine confined_bind (confined_add key _ none) fun _ => ?_
    refine confined_bind (confined_read key) fun value => ?_
    split
    · exact confined_toInt value
    · exact confined_takeSeed

theorem confined_bumpVersion : Confined bumpVersion := by
  refine confined_bind confined_get fun c => ?_
  refine confined_bind ?_ fun version => confined_bind (confined_note _ _ _ _) fun _ =>
    confined_pure version
  exact confined_bind (confined_readCounter _) fun _ => confined_increment _

end Cache
end AccessControl
