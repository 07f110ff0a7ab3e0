import AccessControl.Proofs.Cache.Agreement
import Mathlib

/-! # A memory forgets what has expired

What has expired lies in a memory until its key is met again, and each operation meets it in its own
way.  None of this is seen.  A memory answers calls as a view does that forgets every entry at the
moment of its expiry (`View.serve`): one call keeps that the memory shows the view (`follows`), and
so do all calls (`memory_forgets`), whatever lifetimes are asked for, zero and negative ones
included.  Moments are whole numbers of any unit in which lifetimes are counted. -/

namespace AccessControl
namespace Cache

/-! ### Calls on a memory -/

/-- A call on a memory: one of the five operations, or the removal of everything. -/
inductive MemoryCall where
  | operation (command : Command)
  | clear

/-- What a call on a memory does. -/
def MemoryCall.perform : MemoryCall → CacheM Reply
  | .operation command => command.perform
  | .clear => do
    Cache.clear
    return .done

/-- The answers to calls, each with the time since the one before it, and the cache after them. -/
def serve : List (ℤ × MemoryCall) → Cache → List (Except Failure Reply) × Cache
  | [], c => ([], c)
  | (passed, call) :: calls, c =>
    let first := outcome call.perform { c with clock := c.clock + passed }
    let others := serve calls first.2
    (first.1 :: others.1, others.2)

/-! ### A view that forgets -/

/-- The failure of an increment of what is no whole number. -/
def noInteger (key : String) : Failure :=
  .value ("Cache value at " ++ Text.quoted key ++ " is not an integer")

namespace View

/-- The number of different keys under which there is something. -/
def count (m : View) (keys : List String) : ℕ :=
  (keys.toFinset.filter fun key => (m key).isSome).card

/-- Only a key that is free takes a value. -/
def add (m : View) (key : String) (value : Value) (expiresAt : Option ℤ) :
    Except Failure Reply × View :=
  match m key with
  | none => (.ok (.added true), m.set key value expiresAt)
  | some _ => (.ok (.added false), m)

/-- A whole number becomes greater by one and keeps its expiry; a key that is free counts from
zero, without expiry. -/
def increment (m : View) (key : String) : Except Failure Reply × View :=
  match m key with
  | none => (.ok (.number 1), m.set key (.int 1) none)
  | some (.int n, expiresAt) => (.ok (.number (n + 1)), m.set key (.int (n + 1)) expiresAt)
  | some _ => (.error (noInteger key), m)

/-- The answer to a call at a moment, and what is then under the keys. -/
def answer (m : View) (now : ℤ) : MemoryCall → Except Failure Reply × View
  | .operation (.get key) => (.ok (.value (m.value key)), m)
  | .operation (.set key value ttl) => (.ok .done, m.set key value (expiry now ttl))
  | .operation (.add key value ttl) => m.add key value (expiry now ttl)
  | .operation (.increment key) => m.increment key
  | .operation (.delete keys) => (.ok (.number (m.count keys)), m.without keys)
  | .clear => (.ok .done, fun _ => none)

/-- The answers to calls, each with the time since the one before it, and what is there
after them.  What has expired is forgotten as time passes, and so is what expires at the
moment at which it is written. -/
def serve : List (ℤ × MemoryCall) → ℤ → View → List (Except Failure Reply) × View
  | [], _, m => ([], m)
  | (passed, call) :: calls, now, m =>
    let first := (m.fade (now + passed)).answer (now + passed) call
    let others := serve calls (now + passed) (first.2.fade (now + passed))
    (first.1 :: others.1, others.2)

/-- Keys that are removed one after the other are counted once each. -/
theorem removed_eq_count (m : View) (keys : List String) : m.removed keys = m.count keys := by
  induction keys generalizing m with
  | nil => rfl
  | cons key keys ih =>
      have hothers : (keys.toFinset.filter fun other => (m.without [key] other).isSome) =
          (keys.toFinset.filter fun other => (m other).isSome).erase key := by
        ext other
        by_cases h : other = key <;> simp [without, h]
      rw [removed, ih, count, hothers, count, List.toFinset_cons, Finset.filter_insert]
      by_cases h : (m key).isSome
      · rw [if_pos h, if_pos h, ← Finset.erase_insert_eq_erase,
          add_comm, Finset.card_erase_add_one (Finset.mem_insert_self _ _)]
      · have hfree : key ∉ keys.toFinset.filter fun other => (m other).isSome := by simp [h]
        rw [if_neg h, if_neg h, zero_add, Finset.erase_eq_of_notMem hfree]

end View

/-! ### What a memory shows -/

namespace Entries

/-- What is under each key at a moment. -/
def shown (es : Entries Value) (now : ℤ) : View :=
  fun key => (es.at? now key).map fun e => (e.value, e.expiresAt)

theorem shows_shown {es : Entries Value} (h : es.Keyed) (now : ℤ) :
    Shows es now id (es.shown now) :=
  ⟨h, fun key => by simp [shown, Function.comp_def]⟩

theorem at?_put_eq {α : Type} (es : Entries α) (now : ℤ) (e : Entry α) (other : String) :
    at? (put es e) now other = if other = e.key then (some e).filter (·.isLive now)
      else at? es now other := by
  rw [at?_eq, at?_eq, put, List.find?_append, find?_erase]
  split
  · next h => simp [h]
  · next h =>
      have hne : (e.key == other) = false := by simpa using Ne.symm h
      simp [hne]

end Entries

namespace Shows

variable {α : Type} {es : Entries α} {now : ℤ} {code : Value → α} {m : View}

theorem fade_self (h : Shows es now code m) : m.fade now = m := by
  funext key
  unfold View.fade
  cases hm : m key with
  | none => rfl
  | some p =>
      obtain ⟨value, expiresAt⟩ := p
      cases expiresAt with
      | none => rfl
      | some t =>
          have hlt : now < t := h.lt_expiry hm
          simp [Option.filter, hlt]

theorem written (h : Shows es now code m) (key : String) (value : Value) (expiresAt : Option ℤ) :
    Shows (es.put ⟨key, code value, expiresAt⟩) now code ((m.set key value expiresAt).fade now)
      where
  keyed := h.keyed.put _
  at_eq other := by
    rw [Entries.at?_put_eq]
    split
    · next heq =>
        obtain rfl : other = key := heq
        unfold View.fade
        rw [View.set_same]
        cases expiresAt with
        | none => rfl
        | some t => by_cases hlt : now < t <;> simp [Option.filter, Entry.isLive, hlt]
    · next hne =>
        have hfade : (m.set key value expiresAt).fade now other = m.fade now other := by
          unfold View.fade
          rw [View.set_of_ne m hne]
        rw [hfade, h.fade_self, h.at_eq]

end Shows

variable {c : Cache} {m : View}

theorem Represents.exists_entries (h : Represents false c m) :
    ∃ entries, c.backend = .memory entries ∧ Shows entries c.clock id m := by
  cases hc : c.backend with
  | memory entries => exact ⟨entries, rfl, (h.memory hc).2⟩
  | remote store => exact absurd (h.remote hc).1 Bool.false_ne_true

theorem Represents.fade_self (h : Represents false c m) : m.fade c.clock = m := by
  obtain ⟨entries, -, hshows⟩ := h.exists_entries
  exact hshows.fade_self

/-! ### One call -/

/-- An operation answers as it is told, and leads to a memory that shows what it is told,
less what has expired. -/
def Follows (operation : CacheM Reply) (c : Cache) (told : Except Failure Reply × View) : Prop :=
  ∃ c', outcome operation c = (told.1, c') ∧ c'.clock = c.clock ∧
    Represents false c' (told.2.fade c.clock)

/-- What a memory yields, it is told. -/
theorem Yields.follows {α : Type} {operation : CacheM α} {a : α} {m' : View}
    (h : Yields false operation c a m') (reply : α → Reply) :
    Follows (operation >>= fun a => pure (reply a)) c (.ok (reply a), m') := by
  obtain ⟨c', hrun, hsteady, hrep⟩ := h
  refine ⟨c', ?_, hsteady.clock, ?_⟩
  · rw [outcome_bind, hrun, andThen_ok, outcome_pure]
  · rw [← hsteady.clock, hrep.fade_self]
    exact hrep

theorem follows_get (h : Represents false c m) (key : String) :
    Follows (Command.perform (.get key)) c (.ok (.value (m.value key)), m) :=
  (read_spec h key).follows .value

theorem follows_set (h : Represents false c m) (key : String) (value : Value) (ttl : Option ℤ) :
    Follows (Command.perform (.set key value ttl)) c (.ok .done,
      m.set key value (expiry c.clock ttl)) := by
  obtain ⟨entries, hc, hshows⟩ := h.exists_entries
  refine ⟨{ c with backend := .memory (entries.put ⟨key, value, expiry c.clock ttl⟩) }, ?_, rfl,
    represents_memory c rfl (hshows.written key value (expiry c.clock ttl))⟩
  simp only [Command.perform, write, setMemory, outcome_bind, outcome_get, andThen_ok, hc,
    outcome_modify, outcome_pure]

theorem follows_add (h : Represents false c m) (key : String) (value : Value) (ttl : Option ℤ) :
    Follows (Command.perform (.add key value ttl)) c (m.add key value (expiry c.clock ttl)) := by
  unfold View.add
  cases hm : m key with
  | some p => exact (add_taken h hm value ttl).follows .added
  | none =>
      obtain ⟨entries, hc, hshows⟩ := h.exists_entries
      have hfound := hshows.find_none hm
      refine ⟨{ c with
        backend := .memory ((entries.find c.clock key).2.put ⟨key, value, expiry c.clock ttl⟩) },
        ?_, rfl,
        represents_memory c rfl ((hshows.find key).written key value (expiry c.clock ttl))⟩
      simp only [Command.perform, add, setMemory, outcome_bind, outcome_get, andThen_ok, hc, hfound,
        Option.isSome_none, Bool.false_eq_true, if_false, outcome_modify, outcome_pure]

theorem increment_refused (h : Represents false c m) {key : String} {value : Value}
    {expiresAt : Option ℤ} (hm : m key = some (value, expiresAt)) (hvalue : ∀ n, value ≠ .int n) :
    ∃ c', outcome (increment key) c = (.error (noInteger key), c') ∧ c'.clock = c.clock ∧
      Represents false c' m := by
  obtain ⟨entries, hc, hshows⟩ := h.exists_entries
  refine ⟨{ c with backend := .memory (entries.find c.clock key).2 }, ?_, rfl,
    represents_memory c rfl (hshows.find key)⟩
  rcases hshows.find_cases key with ⟨-, hnone⟩ | ⟨e, held, hfound, hheld, hcode⟩
  · rw [hm] at hnone
    cases hnone
  · obtain rfl : value = e.value := by
      rw [hm] at hheld
      rw [hcode, id_eq]
      exact congrArg Prod.fst (Option.some.inj hheld)
    simp only [increment, setMemory, outcome_bind, outcome_get, andThen_ok, hc, outcome_modify,
      hfound]
    rfl

theorem follows_increment (h : Represents false c m) (key : String) :
    Follows (Command.perform (.increment key)) c (m.increment key) := by
  unfold View.increment
  cases hm : m key with
  | none => exact (increment_free h hm).follows .number
  | some p =>
      obtain ⟨value, expiresAt⟩ := p
      by_cases hint : ∃ n, value = .int n
      · obtain ⟨n, rfl⟩ := hint
        have hlive : expiresAt.all (c.clock < ·) = true := by
          cases expiresAt with
          | none => rfl
          | some t => exact decide_eq_true (h.lt_expiry hm)
        exact (increment_spec h hm (countable_memory n) (countable_memory (n + 1)) hlive).follows
          .number
      · have hvalue : ∀ n, value ≠ .int n := fun n heq => hint ⟨n, heq⟩
        obtain ⟨c', hrun, hclock, hrep⟩ := increment_refused h hm hvalue
        split
        · next hnone => cases hnone
        · next n t heq => exact absurd (congrArg Prod.fst (Option.some.inj heq)) (hvalue n)
        · refine ⟨c', ?_, hclock, ?_⟩
          · simp only [Command.perform, outcome_bind, hrun, andThen_error]
          · rw [h.fade_self]
            exact hrep

theorem follows_delete (h : Represents false c m) (keys : List String) :
    Follows (Command.perform (.delete keys)) c (.ok (.number (m.count keys)), m.without keys) := by
  have hdelete := delete_spec h keys
  rw [View.removed_eq_count] at hdelete
  exact hdelete.follows .number

theorem follows_clear (h : Represents false c m) :
    Follows (MemoryCall.perform .clear) c (.ok .done, fun _ => none) := by
  obtain ⟨entries, hc, -⟩ := h.exists_entries
  refine ⟨{ c with backend := .memory [] }, ?_, rfl, represents_memory c rfl (shows_nil c.clock id)⟩
  simp only [MemoryCall.perform, clear, setMemory, outcome_bind, outcome_get, andThen_ok, hc,
    outcome_modify, outcome_pure]

/-- A memory answers a call from what it shows. -/
theorem follows (h : Represents false c m) (call : MemoryCall) :
    Follows call.perform c (m.answer c.clock call) := by
  cases call with
  | clear => exact follows_clear h
  | operation command =>
      cases command with
      | get key => exact follows_get h key
      | set key value ttl => exact follows_set h key value ttl
      | add key value ttl => exact follows_add h key value ttl
      | increment key => exact follows_increment h key
      | delete keys => exact follows_delete h keys

/-! ### All calls -/

/-- The answers to all calls, and what is there after them. -/
theorem serve_spec (h : Represents false c m) {calls : List (ℤ × MemoryCall)}
    (hforward : ∀ call ∈ calls, 0 ≤ call.1) :
    (serve calls c).1 = (View.serve calls c.clock m).1 ∧
      Represents false (serve calls c).2 (View.serve calls c.clock m).2 := by
  induction calls generalizing c m with
  | nil => exact ⟨rfl, h⟩
  | cons call calls ih =>
      obtain ⟨passed, call⟩ := call
      obtain ⟨hpassed, hforward⟩ := List.forall_mem_cons.mp hforward
      obtain ⟨c', hrun, hclock, hrep⟩ := follows (represents_advance h hpassed) call
      obtain ⟨hanswers, hrest⟩ := ih hrep hforward
      rw [hclock] at hanswers hrest
      simp only [serve, View.serve, hrun]
      exact ⟨congrArg _ hanswers, hrest⟩

/-- A memory answers every sequence of calls as the view does that forgets what has expired, and
shows afterwards what is left of the view.  So it is not seen which entries that have expired are
still there: memories that show the same at one moment answer alike from then on. -/
theorem memory_forgets {entries : Entries Value} (hc : c.backend = .memory entries)
    (hkeyed : entries.Keyed) {calls : List (ℤ × MemoryCall)}
    (hforward : ∀ call ∈ calls, 0 ≤ call.1) :
    (serve calls c).1 = (View.serve calls c.clock (entries.shown c.clock)).1 ∧
      (∃ others, (serve calls c).2.backend = .memory others ∧
        others.shown (serve calls c).2.clock =
          (View.serve calls c.clock (entries.shown c.clock)).2) ∧
      ∀ c' : Cache, ∀ entries' : Entries Value, c'.backend = .memory entries' → entries'.Keyed →
        c'.clock = c.clock →
        entries'.shown c.clock = entries.shown c.clock →
          (serve calls c').1 = (serve calls c).1 := by
  have hshown : ∀ {c : Cache} {entries : Entries Value}, c.backend = .memory entries →
      entries.Keyed →
      Represents false c (entries.shown c.clock) := by
    intro c entries hc hkeyed
    unfold Represents
    rw [hc]
    exact ⟨rfl, entries.shows_shown hkeyed c.clock⟩
  obtain ⟨hanswers, hrep⟩ := serve_spec (hshown hc hkeyed) hforward
  obtain ⟨others, hothers, hshows⟩ := hrep.exists_entries
  refine ⟨hanswers, ⟨others, hothers, ?_⟩, fun c' entries' hc' hkeyed' hclock hsame => ?_⟩
  · funext key
    have hat := hshows.at_eq key
    simpa [Entries.shown] using hat
  · obtain ⟨hanswers', -⟩ := serve_spec (hshown hc' hkeyed') hforward
    rw [hanswers, hanswers', hclock, hsame]

/-- Calls that meet what has expired in every way: a text for two seconds, a number for less than
none, and what comes after them under the same keys. -/
def shortLived : List (ℤ × MemoryCall) :=
  [(0, .operation (.set "text" (.text "a") (some 2))),
   (0, .operation (.set "number" (.int 7) (some (-1)))),
    (0, .operation (.increment "number")), (1, .operation (.increment "text")),
      (0, .operation (.get "text")),
    (1, .operation (.get "text")), (0, .operation (.add "text" (.bool true) (some 0))),
    (0, .operation (.add "text" (.bool true) none)), (0, .operation (.increment "text")),
    (0, .operation (.delete ["text", "text", "number", "other"])), (5, .clear)]

/-- A memory in which something that has expired is still there answers as an empty one does. -/
theorem memory_forgets_shortLived : (∀ call ∈ shortLived, 0 ≤ call.1) ∧
    (View.serve shortLived 0 fun _ => none).1 =
      [.ok .done, .ok .done, .ok (.number 1), .error (noInteger "text"), .ok (.value (.text "a")),
        .ok (.value .null), .ok (.added true), .ok (.added true), .error (noInteger "text"),
        .ok (.number 2), .ok .done] ∧
    (serve shortLived (fresh (.memory []))).1 = (View.serve shortLived 0 fun _ => none).1 ∧
    (serve shortLived (fresh (.memory [⟨"number", .int 3, some 0⟩]))).1 =
      (serve shortLived (fresh (.memory []))).1 := by
  have hforward : ∀ call ∈ shortLived, 0 ≤ call.1 := by
    simp only [shortLived, List.forall_mem_cons]
    decide
  have hexpired : Entries.shown [⟨"number", .int 3, some 0⟩] 0 = Entries.shown [] 0 := by
    funext key
    by_cases h : "number" = key <;> simp [Entries.shown, Entries.at?_eq, Entry.isLive, h]
  obtain ⟨hanswers, -, halike⟩ :=
    memory_forgets (c := fresh (.memory [])) rfl (List.nodup_nil : Entries.Keyed []) hforward
  exact ⟨hforward, rfl, hanswers, halike _ _ rfl (List.nodup_singleton _) rfl hexpired⟩

end Cache
end AccessControl
