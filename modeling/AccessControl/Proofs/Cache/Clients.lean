import AccessControl.Proofs.Cache.Operations
import Mathlib

/-! # Clients that share a counter

Any number of clients read and bump one counter.  A call is a sequence of steps (`Stage.step`), each
one operation of the back end or one look at the clock, and made one after the other they are what
the counter does when it is called alone (`readCounter_eq_alone`, `bumpCounter_eq_alone`).  A
`System` is a store, the calls that are under way and what has been answered; an action begins a
call, does the next step of one, or evicts the counter.  Every sequence of actions can happen, so
that the steps of the calls fall in any order. -/

namespace AccessControl
namespace Cache

/-! ### Calls in steps -/

/-- What a client asks of a counter. -/
inductive Ask where
  | read
  | bump
  deriving DecidableEq, Repr

/-- What a call does next. -/
inductive Stage where
  /-- Looks for the counter. -/
  | looking
  /-- Reads the clock, as there was no counter. -/
  | seeding
  /-- Adds the counter with a seed. -/
  | adding (seed : ℤ)
  /-- Looks for the counter that was added. -/
  | lookingAgain
  /-- Reads the clock for an answer, as the counter is gone again. -/
  | missing
  /-- Raises the counter that was read. -/
  | raising
  deriving DecidableEq, Repr

/-- The seed that a call is about to add. -/
def Stage.seed? : Stage → Option ℤ
  | .adding seed => some seed
  | _ => none

theorem Stage.seed?_eq_some {stage : Stage} {seed : ℤ} :
    stage.seed? = some seed ↔ stage = .adding seed := by
  cases stage <;> simp [seed?]

/-- What becomes of a call that has read the counter. -/
def settle (ask : Ask) (n : ℤ) : Stage ⊕ ℤ :=
  match ask with
  | .read => .inr n
  | .bump => .inl .raising

/-- The next step of a call, which leads to another stage or to the answer. -/
def Stage.step (ask : Ask) (key : String) : Stage → CacheM (Stage ⊕ ℤ)
  | .looking => do
    let value ← read key
    if !value.isNull then return settle ask (← value.toInt)
    else return .inl .seeding
  | .seeding => do return .inl (.adding (← takeSeed))
  | .adding seed => do
    let _ ← add key (.int seed) none
    return .inl .lookingAgain
  | .lookingAgain => do
    let value ← read key
    if !value.isNull then return settle ask (← value.toInt)
    else return .inl .missing
  | .missing => do return settle ask (← takeSeed)
  | .raising => do return .inr (← increment key)

/-- The steps of a call one after the other, with no other call between them. -/
def alone (ask : Ask) (key : String) : ℕ → Stage → CacheM ℤ
  | 0, _ => return 0
  | fuel + 1, stage => do
    match ← stage.step ask key with
    | .inl next => alone ask key fuel next
    | .inr n => return n

/-- What a call still does with the number it has read. -/
def carryOn (ask : Ask) (key : String) (n : ℤ) : CacheM ℤ :=
  match ask with
  | .read => return n
  | .bump => increment key

section Alone

variable (ask : Ask) (key : String)

theorem alone_succ (fuel : ℕ) (stage : Stage) : alone ask key (fuel + 1) stage = do
    match ← stage.step ask key with
    | .inl next => alone ask key fuel next
    | .inr n => return n := rfl

theorem alone_settle (fuel : ℕ) (n : ℤ) :
    (match settle ask n with
      | .inl next => alone ask key (fuel + 1) next
      | .inr n => return n) = carryOn ask key n := by
  cases ask with
  | read => rfl
  | bump => simp only [settle, alone_succ, Stage.step, carryOn, bind_assoc, pure_bind, bind_pure]

theorem alone_missing (fuel : ℕ) :
    alone ask key (fuel + 2) .missing = takeSeed >>= carryOn ask key := by
  simp only [alone_succ ask key (fuel + 1), Stage.step, bind_assoc, pure_bind, alone_settle]

theorem alone_look (fuel : ℕ) {stage other : Stage} (hstep : stage.step ask key = do
      let value ← read key
      if !value.isNull then return settle ask (← value.toInt) else return .inl other) :
    alone ask key (fuel + 2) stage = (do
      let value ← read key
      if !value.isNull then
        carryOn ask key (← value.toInt)
      else alone ask key (fuel + 1) other) := by
  rw [alone_succ, hstep, bind_assoc]
  congr 1
  funext value
  split
  · simp only [bind_assoc, pure_bind, alone_settle]
  · rw [pure_bind]

theorem alone_looking (fuel : ℕ) :
    alone ask key (fuel + 6) .looking = readCounter key >>= carryOn ask key := by
  rw [alone_look ask key (fuel + 4) rfl, readCounter, bind_assoc]
  congr 1
  funext value
  split
  · rfl
  · simp only [alone_succ ask key (fuel + 4), alone_succ ask key (fuel + 3), Stage.step, bind_assoc,
      pure_bind]
    congr 1
    funext seed
    congr 1
    funext _
    rw [alone_look ask key (fuel + 1) rfl]
    congr 1
    funext value
    split
    · rfl
    · exact alone_missing ask key fuel

end Alone

/-- Reading a counter is its steps one after the other. -/
theorem readCounter_eq_alone (key : String) : readCounter key = alone .read key 6 .looking :=
  ((alone_looking .read key 0).trans (bind_pure _)).symm

/-- Bumping a counter is its steps one after the other. -/
theorem bumpCounter_eq_alone (key : String) : bumpCounter key = alone .bump key 6 .looking :=
  (alone_looking .bump key 0).symm

theorem rulesetVersion_eq_alone :
    rulesetVersion = (do alone .read (versionKey (← get).space) 6 .looking) := by
  simp only [rulesetVersion, readCounter_eq_alone]

theorem bumpVersion_eq_alone : bumpVersion = (do
    let version ← alone .bump (versionKey (← get).space) 6 .looking
    note .info .cache "authz.ruleset.version.bumped" [("ruleset_version", .int version)]
    return version) := by
  simp only [bumpVersion, bumpCounter_eq_alone]

/-! ### Systems -/

/-- A store that serves calls step by step, each with what the clock of the client shows, and that
can lose the counter. -/
structure Server (σ : Type) where
  step : Ask → Stage → ℤ → σ → Except Failure (Stage ⊕ ℤ) × σ
  evict : σ → σ
  pass : ℕ → σ → σ

/-- A call that is under way, with the moment at which it began. -/
structure Pending where
  ask : Ask
  start : ℕ
  stage : Stage
  deriving DecidableEq, Repr

/-- The answer to a call, with the moments at which the call began and ended. -/
structure Answer where
  ask : Ask
  start : ℕ
  finish : ℕ
  number : ℤ
  deriving DecidableEq, Repr

/-- A store and its clients: the number of actions so far, the call of each client, what has been
answered, in this order, and the failures of calls. -/
structure System (σ : Type) where
  store : σ
  moment : ℕ
  calls : ℕ → Option Pending
  answers : List Answer
  failures : List Failure

/-- What happens next. -/
inductive Action where
  /-- A client begins a call, unless it has one under way. -/
  | begin (client : ℕ) (ask : Ask)
  /-- A client does the next step of its call, while its clock shows a number. -/
  | turn (client : ℕ) (clock : ℤ)
  /-- The counter is deleted. -/
  | evict
  /-- Time passes at the store. -/
  | pass (seconds : ℕ)
  deriving DecidableEq, Repr

namespace System

variable {σ τ : Type}

/-- A store that no client has called. -/
def start (store : σ) : System σ := ⟨store, 0, fun _ => none, [], []⟩

/-- The call of a client goes on, or is over. -/
def setCall (s : System σ) (client : ℕ) (call : Option Pending) : System σ :=
  { s with calls := Function.update s.calls client call }

/-- What becomes of a call that has done a step. -/
def conclude (s : System σ) (client : ℕ) (call : Pending) : Except Failure (Stage ⊕ ℤ) → System σ
  | .ok (.inl stage) => s.setCall client (some { call with stage := stage })
  | .ok (.inr number) =>
    { s.setCall client none with
      answers := s.answers ++ [⟨call.ask, call.start, s.moment, number⟩] }
  | .error e => { s.setCall client none with failures := s.failures ++ [e] }

/-- An action takes place. -/
def happen (server : Server σ) (s : System σ) : Action → System σ
  | .begin client ask =>
    match s.calls client with
    | none => s.setCall client (some ⟨ask, s.moment, .looking⟩)
    | some _ => s
  | .turn client clock =>
    match s.calls client with
    | none => s
    | some call =>
      let (result, store) := server.step call.ask call.stage clock s.store
      { s with store := store }.conclude client call result
  | .evict => { s with store := server.evict s.store }
  | .pass seconds => { s with store := server.pass seconds s.store }

/-- An action takes place, and the moment is over. -/
def act (server : Server σ) (s : System σ) (action : Action) : System σ :=
  { s.happen server action with moment := s.moment + 1 }

/-- Actions take place one after the other. -/
def run (server : Server σ) (actions : List Action) (s : System σ) : System σ :=
  actions.foldl (act server) s

theorem run_append (server : Server σ) (actions more : List Action) (s : System σ) :
    run server (actions ++ more) s = run server more (run server actions s) := List.foldl_append

/-- The numbers that bumps have been answered with. -/
def bumped (s : System σ) : List ℤ := (s.answers.filter (·.ask = .bump)).map (·.number)

/-- The same clients before another store. -/
def withStore (s : System σ) (store : τ) : System τ :=
  ⟨store, s.moment, s.calls, s.answers, s.failures⟩

/-- The actions, each with the clients as they are when it takes place. -/
def history (server : Server σ) : List Action → System σ → List (System Unit × Action)
  | [], _ => []
  | action :: actions, s => (s.withStore (), action) :: history server actions (s.act server action)

theorem history_append (server : Server σ) (actions more : List Action) (s : System σ) :
    history server (actions ++ more) s = history server actions s ++
      history server more (run server actions s) := by
  induction actions generalizing s with
  | nil => rfl
  | cons action actions ih =>
      exact congrArg ((s.withStore (), action) :: ·) (ih (s.act server action))

/-- The seed that a client brings to the store, when the action is the step of a call
that adds the counter. -/
def adds (s : System σ) : Action → Option ℤ
  | .turn client _ => (s.calls client).bind (·.stage.seed?)
  | _ => none

/-- The first seed that a client brings to the store. -/
def firstAdded (server : Server σ) (actions : List Action) (s : System σ) : Option ℤ :=
  (history server actions s).findSome? fun p => p.1.adds p.2

theorem firstAdded_cons (server : Server σ) (action : Action) (actions : List Action)
    (s : System σ) :
    s.firstAdded server (action :: actions) =
      (s.adds action).or ((s.act server action).firstAdded server actions) := by
  have hadds : (s.withStore ()).adds action = s.adds action := by cases action <;> rfl
  rw [firstAdded, history, List.findSome?_cons, hadds]
  cases s.adds action <;> rfl

end System

/-- The counter under a key of a cache.  The clock of a client is what its seeds come from. -/
def cacheServer (key : String) : Server Cache where
  step ask stage clock c := outcome (stage.step ask key) { c with seeds := [clock] }
  evict c := (outcome (delete [key]) c).2
  pass seconds c := (outcome (advance seconds) c).2

/-- The number that is read under a key of a cache. -/
def number? (key : String) (c : Cache) : Option ℤ :=
  match (outcome (read key) c).1 with
  | .ok (.int n) => some n
  | _ => none

/-- The counter of the rule sets. -/
def versionServer : Server Cache := cacheServer (versionKey "authz")

/-- A memory as it is set up, before its first client. -/
def opening : System Cache := System.start (fresh (.memory []))

/-- The number that the counter of the rule sets shows after some actions. -/
def versionAfter (actions : List Action) : Option ℤ :=
  number? (versionKey "authz") (opening.run versionServer actions).store

end Cache
end AccessControl
