import AccessControl.Session.State
import Mathlib

/-! # Outcomes of operations

An operation in a state gives a result or a failure, and a next state (`outcome`).  The outcome of a
sequence of operations is put together from those of its parts (`outcome_bind`); the simp lemmas
here do so for every way in which operations are written. -/

namespace AccessControl

variable {σ α β : Type}

/-- The result of an operation in a state, and the next state. -/
def outcome (operation : ExceptT Failure (StateM σ) α) (s : σ) : Except Failure α × σ :=
  (ExceptT.run operation).run s

/-- What follows a result, when there is one. -/
def andThen (r : Except Failure α × σ) (next : α → σ → Except Failure β × σ) :
    Except Failure β × σ :=
  match r with
  | (.ok a, s) => next a s
  | (.error e, s) => (.error e, s)

@[simp] theorem andThen_ok (a : α) (s : σ) (next : α → σ → Except Failure β × σ) :
    andThen (.ok a, s) next = next a s := rfl

@[simp] theorem andThen_error (e : Failure) (s : σ) (next : α → σ → Except Failure β × σ) :
    andThen (.error e, s) next = (.error e, s) := rfl

/-! ### Parts of operations -/

@[simp] theorem outcome_pure (a : α) (s : σ) :
    outcome (pure a : ExceptT Failure (StateM σ) α) s = (.ok a, s) := rfl

@[simp] theorem outcome_throw (e : Failure) (s : σ) :
    outcome (throw e : ExceptT Failure (StateM σ) α) s = (.error e, s) := rfl

@[simp] theorem outcome_bind (x : ExceptT Failure (StateM σ) α)
    (f : α → ExceptT Failure (StateM σ) β) (s : σ) :
    outcome (x >>= f) s = andThen (outcome x s) fun a s => outcome (f a) s := by
  simp only [outcome, ExceptT.run_bind, StateT.run_bind]
  rcases (ExceptT.run x).run s with ⟨r, s'⟩
  cases r with
  | error e => rfl
  | ok a => rfl

theorem outcome_bind_eq_ok {x : ExceptT Failure (StateM σ) α} {f : α → ExceptT Failure (StateM σ) β}
    {s s' : σ} {b : β} (h : outcome (x >>= f) s = (.ok b, s')) :
    ∃ a s₁, outcome x s = (.ok a, s₁) ∧ outcome (f a) s₁ = (.ok b, s') := by
  rw [outcome_bind] at h
  rcases hx : outcome x s with ⟨r, s₁⟩
  rw [hx] at h
  cases r with
  | error e => cases h
  | ok a => exact ⟨a, s₁, rfl, h⟩

@[simp] theorem outcome_map (f : α → β) (x : ExceptT Failure (StateM σ) α) (s : σ) :
    outcome (f <$> x) s = andThen (outcome x s) fun a s => (.ok (f a), s) := by
  rw [map_eq_pure_bind, outcome_bind]
  rfl

@[simp] theorem outcome_get (s : σ) : outcome (get : ExceptT Failure (StateM σ) σ) s = (.ok s, s) :=
  rfl

@[simp] theorem outcome_modify (f : σ → σ) (s : σ) :
    outcome (modify f : ExceptT Failure (StateM σ) PUnit) s = (.ok ⟨⟩, f s) := rfl

@[simp] theorem outcome_modifyThe (f : σ → σ) (s : σ) :
    outcome (modifyThe σ f : ExceptT Failure (StateM σ) PUnit) s = (.ok ⟨⟩, f s) := rfl

@[simp] theorem outcome_lift (x : Except Failure α) (s : σ) :
    outcome (liftM x : ExceptT Failure (StateM σ) α) s = (x, s) := rfl

namespace Session

@[simp] theorem outcome_current (s : Session) : outcome current s = (.ok s, s) := rfl

@[simp] theorem outcome_setTables (t : Database.Tables) (s : Session) :
    outcome (setTables t) s = (.ok (), { s with tables := t }) := rfl

@[simp] theorem outcome_note (level : Log.Level) (channel : Log.Channel) (event : String)
    (details : Fields) (s : Session) : outcome (note level channel event details) s =
      (.ok (), { s with records := s.records ++ [⟨level, channel, event, Log.context details⟩] }) :=
  rfl

@[simp] theorem outcome_onCache (operation : CacheM α) (s : Session) :
    outcome (liftM operation : SessionM α) s =
    ((outcome operation s.cache).1,
      { s with
        cache := { (outcome operation s.cache).2 with records := [] }
        records := s.records ++ (outcome operation s.cache).2.records }) := rfl

end Session

namespace Cache

@[simp] theorem outcome_note (level : Log.Level) (channel : Log.Channel) (event : String)
    (details : Fields) (c : Cache) : outcome (note level channel event details) c =
      (.ok (), { c with records := c.records ++ [⟨level, channel, event, details⟩] }) := rfl

end Cache
end AccessControl
