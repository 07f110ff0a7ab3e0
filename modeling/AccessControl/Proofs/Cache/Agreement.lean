import AccessControl.Proofs.Cache.Operations
import AccessControl.Proofs.Value.Objects
import Mathlib

/-! # Both back ends answer alike

A sequence of calls, each some seconds after the one before it, is answered by a memory and by a
string store in reach.  What the store shows is at every moment what the memory shows, with the
fields of objects sorted (`Twin`).  Every call keeps that, and is answered with the same value up to
the order of the fields (`Twin.step`).  So all calls are (`replies_agree`), as long as they are in
the domain of both: values that JSON can stand for, lifetimes of at least a second, and increments
of nothing else than numbers of 64 bits below the greatest. -/

namespace AccessControl
namespace Cache

/-! ### Calls -/

/-- A call of one of the five operations. -/
inductive Command where
  | get (key : String)
  | set (key : String) (value : Value) (ttl : Option ℤ)
  | add (key : String) (value : Value) (ttl : Option ℤ)
  | increment (key : String)
  | delete (keys : List String)

/-- The answer to a call. -/
inductive Reply where
  | value (v : Value)
  | done
  | added (free : Bool)
  | number (n : ℤ)

/-- The answer with the fields of objects sorted. -/
def Reply.sorted : Reply → Reply
  | .value v => .value v.sorted
  | reply => reply

/-- Do two answers stand for one thing? -/
def Reply.alike : Reply → Reply → Bool
  | .value v, .value w => v.alike w
  | .done, .done => true
  | .added a, .added b => a == b
  | .number m, .number n => m == n
  | _, _ => false

/-- What a call does. -/
def Command.perform : Command → CacheM Reply
  | .get key => do return .value (← read key)
  | .set key value ttl => do
    write key value ttl
    return .done
  | .add key value ttl => do return .added (← Cache.add key value ttl)
  | .increment key => do return .number (← Cache.increment key)
  | .delete keys => do return .number (← Cache.delete keys)

/-- A call that is made so many seconds after the one before it. -/
def Command.later (seconds : ℤ) (command : Command) : CacheM Reply := do
  let _ ← advance seconds
  command.perform

/-- The answers to calls, each with the seconds since the one before it. -/
def replies : List (ℤ × Command) → Cache → List (Except Failure Reply)
  | [], _ => []
  | (seconds, command) :: commands, c =>
    (outcome (command.later seconds) c).1 :: replies commands (outcome (command.later seconds) c).2

/-! ### Calls in the domain of both back ends -/

/-- What a memory holds under a key now. -/
def held (c : Cache) (key : String) : Option Value :=
  match c.backend with
  | .memory entries => (entries.at? c.clock key).map (·.value)
  | .remote _ => none

/-- Nothing, or a number of 64 bits with a sign that is not the greatest. -/
def Raisable : Option Value → Prop
  | none => True
  | some (.int n) => -2 ^ 63 ≤ n ∧ n < 2 ^ 63 - 1
  | some _ => False

/-- What is stored can be stored in both back ends. -/
def Accepted (value : Value) (ttl : Option ℤ) : Prop := value.IsJson ∧ ∀ t, ttl = some t → 1 ≤ t

/-- A call that a memory in this state and a string store may both be asked. -/
def Command.Allowed (c : Cache) : Command → Prop
  | .get _ => True
  | .set _ value ttl => Accepted value ttl
  | .add _ value ttl => Accepted value ttl
  | .increment key => Raisable (held c key)
  | .delete _ => True

/-- Calls of which each is allowed in the state that a memory is then in, with no step back in
time. -/
def AllAllowed : List (ℤ × Command) → Cache → Prop
  | [], _ => True
  | (seconds, command) :: commands, c =>
    0 ≤ seconds ∧ command.Allowed { c with clock := c.clock + seconds } ∧
      AllAllowed commands (outcome (command.later seconds) c).2

/-! ### What both back ends show -/

namespace View

/-- The view with the fields of objects sorted. -/
def sorted (m : View) : View := fun key => (m key).map fun p => (p.1.sorted, p.2)

theorem sorted_set (m : View) (key : String) (v : Value) (t : Option ℤ) :
    (m.set key v t).sorted = m.sorted.set key v.sorted t := by
  funext other
  by_cases h : other = key
  · rw [h, set_same, sorted, set_same, Option.map_some]
  · rw [set_of_ne _ h, sorted, set_of_ne _ h, sorted]

theorem sorted_without (m : View) (keys : List String) :
    (m.without keys).sorted = m.sorted.without keys := by
  funext key
  unfold sorted without
  split <;> rfl

theorem sorted_fade (m : View) (now : ℤ) : (m.fade now).sorted = m.sorted.fade now := by
  funext key
  simp only [sorted, fade]
  cases m key with
  | none => rfl
  | some p =>
      rw [Option.map_some, Option.filter_some, Option.filter_some]
      split <;> rfl

theorem sorted_value (m : View) (key : String) : m.sorted.value key = (m.value key).sorted := by
  unfold value sorted
  cases m key <;> rfl

theorem sorted_none {m : View} {key : String} (h : m key = none) : m.sorted key = none := by
  rw [sorted, h, Option.map_none]

theorem sorted_some {m : View} {key : String} {p : Value × Option ℤ} (h : m key = some p) :
    m.sorted key = some (p.1.sorted, p.2) := by rw [sorted, h, Option.map_some]

theorem removed_sorted (m : View) (keys : List String) :
    m.sorted.removed keys = m.removed keys := by
  induction keys generalizing m with
  | nil => rfl
  | cons key keys ih => rw [removed, removed, ← sorted_without, ih, sorted, Option.isSome_map]

end View

/-- A memory and a string store that show the same values at the same time, up to the order of
fields. -/
structure Twin (c c' : Cache) (m : View) : Prop where
  memory : Represents false c m
  remote : Represents true c' m.sorted
  clock : c'.clock = c.clock
  json : ∀ key p, m key = some p → p.1.IsJson

variable {c c' : Cache} {m : View}

theorem held_eq (h : Represents false c m) (key : String) : held c key = (m key).map Prod.fst := by
  unfold held
  cases hc : c.backend with
  | memory entries =>
      have hat := congrArg (Option.map Prod.fst) ((h.memory hc).2.at_eq key)
      rw [Option.map_map, Option.map_map] at hat
      exact hat
  | remote store => cases (h.remote hc).1

theorem givenBack_sorted {v : Value} (h : v.IsJson) : GivenBack true v v.sorted :=
  ⟨h.stable_sorted, by rw [Value.toSortedJson, h.sorted_sorted, Value.toSortedJson]⟩

theorem json_set (h : ∀ key p, m key = some p → p.1.IsJson) {v : Value} (hv : v.IsJson)
    (key : String) (t : Option ℤ) :
    ∀ other p, m.set key v t other = some p → p.1.IsJson := by
  intro other p hp
  by_cases hother : other = key
  · rw [hother, View.set_same] at hp
    cases hp
    exact hv
  · rw [View.set_of_ne m hother] at hp
    exact h other p hp

/-- An answer that is given by both back ends, up to the order of fields, after which
both show the same again. -/
def Answers (c c' : Cache) (operation : CacheM Reply) (reply : Reply) : Prop :=
  reply.alike reply.sorted = true ∧
    ∃ m, Yields false operation c reply m ∧ Yields true operation c' reply.sorted m.sorted ∧
      ∀ key p, m key = some p → p.1.IsJson

theorem answers_of_yields {α : Type} {operation : CacheM α} (reply : α → Reply) {a a' : α}
    (h : Yields false operation c a m) (h' : Yields true operation c' a' m.sorted)
    (hsorted : reply a' = (reply a).sorted) (halike : (reply a).alike (reply a).sorted = true)
    (hjson : ∀ key p, m key = some p → p.1.IsJson) :
    ∃ r, Answers c c' (operation >>= fun a => pure (reply a)) r := by
  refine ⟨reply a, halike, m, ?_, ?_, hjson⟩
  · exact yields_bind h fun c₁ _ h₁ => yields_pure h₁ _
  · rw [← hsorted]
    exact yields_bind h' fun c₁ _ h₁ => yields_pure h₁ _

theorem short_of_lt {n : ℤ} (hlow : -2 ^ 63 ≤ n) (hhigh : n ≤ 2 ^ 63) : Text.Short n := by
  have hdigits : (2 : ℕ) ^ 63 < 10 ^ 20 := by decide
  calc n.natAbs ≤ 2 ^ 63 := by omega
    _ < 10 ^ 20 := hdigits
    _ ≤ 10 ^ Text.digitLimit := Nat.pow_le_pow_right (by decide) (by decide)

namespace Twin

theorem get (h : Twin c c' m) (key : String) :
    ∃ reply, Answers c c' (Command.perform (.get key)) reply := by
  have hread := read_spec h.memory key
  have hread' := read_spec h.remote key
  have hjson : (m.value key).IsJson := by
    unfold View.value
    cases hm : m key with
    | none => exact .null
    | some p => exact h.json key p hm
  exact answers_of_yields .value hread hread' (congrArg Reply.value (m.sorted_value key))
    hjson.alike_sorted h.json

theorem set (h : Twin c c' m) (key : String) {value : Value} {ttl : Option ℤ}
    (hvalue : Accepted value ttl) :
    ∃ reply, Answers c c' (Command.perform (.set key value ttl)) reply := by
  obtain ⟨hjson, httl⟩ := hvalue
  have hwrite := write_shown h.memory key (storable_memory value).givenBack httl
  have hwrite' := write_shown h.remote key (givenBack_sorted hjson) httl
  rw [h.clock, ← View.sorted_set] at hwrite'
  exact answers_of_yields (fun _ => .done) hwrite hwrite' rfl rfl (json_set h.json hjson key _)

theorem add (h : Twin c c' m) (key : String) {value : Value} {ttl : Option ℤ}
    (hvalue : Accepted value ttl) :
    ∃ reply, Answers c c' (Command.perform (.add key value ttl)) reply := by
  obtain ⟨hjson, httl⟩ := hvalue
  cases hm : m key with
  | none =>
      have hadd := add_shown h.memory hm (storable_memory value).givenBack httl
      have hadd' := add_shown h.remote (View.sorted_none hm) (givenBack_sorted hjson) httl
      rw [h.clock, ← View.sorted_set] at hadd'
      exact answers_of_yields .added hadd hadd' rfl rfl (json_set h.json hjson key _)
  | some p =>
      have hadd := add_taken h.memory hm value ttl
      have hadd' := add_taken h.remote (View.sorted_some hm) value ttl
      exact answers_of_yields .added hadd hadd' rfl rfl h.json

theorem increment (h : Twin c c' m) (key : String) (hraise : Raisable (held c key)) :
    ∃ reply, Answers c c' (Command.perform (.increment key)) reply := by
  rw [held_eq h.memory] at hraise
  cases hm : m key with
  | none =>
      have hone : (Value.int 1).IsJson := .int 1 (short_of_lt (by decide) (by decide))
      have hinc := increment_free h.memory hm
      have hinc' := increment_free h.remote (View.sorted_none hm)
      have hset : (m.set key (.int 1) none).sorted = m.sorted.set key (.int 1) none :=
        m.sorted_set key _ _
      rw [← hset] at hinc'
      exact answers_of_yields .number hinc hinc' rfl rfl (json_set h.json hone key _)
  | some p =>
      obtain ⟨v, t⟩ := p
      rw [hm] at hraise
      cases v with
      | int n =>
          obtain ⟨hlow, hhigh⟩ := hraise
          have hshort : Text.Short n := short_of_lt hlow (by omega)
          have hnext : Text.Short (n + 1) := short_of_lt (by omega) (by omega)
          have hlive : t.all (c.clock < ·) = true := by
            cases t with
            | none => rfl
            | some t => exact decide_eq_true (h.memory.lt_expiry hm)
          have hinc := increment_spec h.memory hm (fun _ => hshort) (fun _ => hnext) hlive
          have hinc' :=
            increment_spec h.remote (View.sorted_some hm) (fun _ => hshort) (fun _ => hnext)
            (by rw [h.clock]; exact hlive)
          have hset : (m.set key (.int (n + 1)) t).sorted = m.sorted.set key (.int (n + 1)) t :=
            m.sorted_set key _ _
          rw [← hset] at hinc'
          exact answers_of_yields .number hinc hinc' rfl (beq_self_eq_true (n + 1))
            (json_set h.json (.int (n + 1) hnext) key _)
      | _ => exact absurd hraise id

theorem delete (h : Twin c c' m) (keys : List String) :
    ∃ reply, Answers c c' (Command.perform (.delete keys)) reply := by
  have hdelete := delete_spec h.memory keys
  have hdelete' := delete_spec h.remote keys
  rw [View.removed_sorted, ← View.sorted_without] at hdelete'
  refine answers_of_yields (fun n => .number n) hdelete hdelete'
    rfl (beq_self_eq_true (m.removed keys : ℤ)) ?_
  intro key p hp
  unfold View.without at hp
  split at hp
  · cases hp
  · exact h.json key p hp

theorem perform (h : Twin c c' m) {command : Command} (hallowed : command.Allowed c) :
    ∃ reply, Answers c c' command.perform reply := by
  cases command with
  | get key => exact h.get key
  | set key value ttl => exact h.set key hallowed
  | add key value ttl => exact h.add key hallowed
  | increment key => exact h.increment key hallowed
  | delete keys => exact h.delete keys

theorem advance (h : Twin c c' m) {seconds : ℤ} (hle : 0 ≤ seconds) :
    Twin { c with clock := c.clock + seconds } { c' with clock := c'.clock + seconds }
      (m.fade (c.clock + seconds)) where
  memory := represents_advance h.memory hle
  remote := by
    rw [View.sorted_fade, ← h.clock]
    exact represents_advance h.remote hle
  clock := by rw [h.clock]
  json key p hp := h.json key p (Option.filter_eq_some_iff.mp hp).1

/-- One call: both answer with the same, and show the same afterwards. -/
theorem step (h : Twin c c' m) {seconds : ℤ} {command : Command} (hle : 0 ≤ seconds)
    (hallowed : command.Allowed { c with clock := c.clock + seconds }) :
    ∃ reply m₁, (outcome (command.later seconds) c).1 = .ok reply ∧
      (outcome (command.later seconds) c').1 = .ok reply.sorted ∧ reply.alike reply.sorted = true ∧
      Twin (outcome (command.later seconds) c).2 (outcome (command.later seconds) c').2 m₁ := by
  have hadvanced := h.advance hle
  obtain ⟨reply, halike, m₁, ⟨c₁, hrun, hsteady, hmemory⟩, ⟨c₂, hrun', hsteady', hremote⟩, hjson⟩ :=
    hadvanced.perform hallowed
  have hlater : outcome (command.later seconds) c = (.ok reply, c₁) := hrun
  have hlater' : outcome (command.later seconds) c' = (.ok reply.sorted, c₂) := hrun'
  rw [hlater, hlater']
  refine ⟨reply, m₁, rfl, rfl, halike, hmemory, hremote, ?_, hjson⟩
  rw [hsteady'.clock, hsteady.clock, hadvanced.clock]

end Twin

/-- Two answers are the same, up to the order of the fields of objects. -/
def SameReply (r r' : Except Failure Reply) : Prop :=
  ∃ reply, r = .ok reply ∧ r' = .ok reply.sorted ∧ reply.alike reply.sorted = true

theorem Twin.replies (h : Twin c c' m) {commands : List (ℤ × Command)}
    (hallowed : AllAllowed commands c) :
    List.Forall₂ SameReply (replies commands c) (replies commands c') := by
  induction commands generalizing c c' m with
  | nil => exact .nil
  | cons call commands ih =>
      obtain ⟨seconds, command⟩ := call
      obtain ⟨hle, hcall, hrest⟩ := hallowed
      obtain ⟨reply, m₁, hreply, hreply', halike, htwin⟩ := h.step hle hcall
      exact .cons ⟨reply, hreply, hreply', halike⟩ (ih htwin hrest)

/-- A memory and a string store, empty at the same time, answer every sequence of allowed calls with
the same, call by call. -/
theorem replies_agree {c c' : Cache} (hmemory : c.backend = .memory [])
    (hremote : c'.backend = .remote .empty) (hclock : c'.clock = c.clock)
    {commands : List (ℤ × Command)} (hallowed : AllAllowed commands c) :
    List.Forall₂ SameReply (Cache.replies commands c) (Cache.replies commands c') := by
  have htwin : Twin c c' fun _ => none :=
    ⟨represents_emptyMemory hmemory, represents_emptyRemote hremote, hclock,
     fun _ _ hp => by cases hp⟩
  exact htwin.replies hallowed

/-- An answer that is allowed for two and a half seconds. -/
def briefly : Value :=
  .object [("seconds", .float (.finite false 5629499534213120 (-51))), ("allowed", .bool true)]

theorem isJson_briefly : briefly.IsJson := by
  refine .object _ (by decide)
    (List.forall_mem_cons.mpr ⟨?_, List.forall_mem_singleton.mpr (.bool true)⟩)
  refine .float _ ⟨?_, ?_, ?_, .inl ?_⟩ Double.noConfusion
  · norm_num [Double.precision]
  · decide
  · decide
  · norm_num [Double.precision]

/-- An answer that is kept for a minute, and a version that is raised and deleted. -/
def minute : List (ℤ × Command) :=
  [(0, .set "answer" briefly (some 60)), (0, .add "version" (.int 41) none),
   (30, .increment "version"),
    (0, .get "answer"), (30, .add "answer" .null (some 1)),
      (0, .delete ["version", "answer", "answer"]),
    (1, .increment "version")]

theorem allAllowed_minute : AllAllowed minute (fresh (.memory [])) := by
  have hversion : Text.Short 41 := short_of_lt (by norm_num) (by norm_num)
  unfold minute
  refine ⟨le_rfl, ⟨isJson_briefly, by simp⟩, le_rfl, ⟨.int 41 hversion, by simp⟩, by norm_num, ?_,
    le_rfl, trivial, by norm_num, ⟨.null, by simp⟩, le_rfl, trivial, by norm_num, ?_, trivial⟩
  · change Raisable (some (.int 41))
    exact ⟨by norm_num, by norm_num⟩
  · change Raisable none
    trivial

theorem replies_agree_minute : AllAllowed minute (fresh (.memory [])) ∧
    List.Forall₂ SameReply (Cache.replies minute (fresh (.memory [])))
      (Cache.replies minute (fresh (.remote .empty))) :=
  ⟨allAllowed_minute, replies_agree (by rfl) (by rfl) (by rfl) allAllowed_minute⟩

end Cache
end AccessControl
