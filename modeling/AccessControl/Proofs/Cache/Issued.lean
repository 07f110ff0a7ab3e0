import AccessControl.Proofs.Cache.Lockstep
import Mathlib

/-! # Numbers are issued in ascending order

While the counter is there, it is at least as great as every number that has been issued, and a call
that has read it or added it finds it again.  While it is not there, a seed that waits to be added
is greater than all of them.  These facts are kept by every action that does not evict the counter
under a call that holds a seed or has read the number (`Sound.happens`), as long as the clocks run
ahead of what was issued under counters that are gone.  From them, the answers ascend in the order
in which they are given, and so in time (`Sound.number_le`). -/

namespace AccessControl
namespace Cache

/-! ### Calls that are under way -/

/-- What a call relies on at its stage. -/
def Pending.Meets (counter : Option ℤ) (answers : List Answer) (call : Pending) : Prop :=
  match call.stage with
  | .looking => True
  | .seeding => True
  | .adding seed => counter = none → ∀ a ∈ answers, a.number < seed
  | .lookingAgain => counter ≠ none
  | .missing => False
  | .raising => call.ask = .bump ∧ counter ≠ none

section Meets

variable {counter counter' : Option ℤ} {answers answers' : List Answer} {call : Pending}

/-- A counter that stays or comes takes nothing from a call. -/
theorem Pending.Meets.mono (h : call.Meets counter answers)
    (hkeep : counter' = none → counter = none ∧ answers' = answers) :
    call.Meets counter' answers' := by
  have hthere : counter ≠ none → counter' ≠ none := fun hcounter hgone => hcounter (hkeep hgone).1
  unfold Pending.Meets at h ⊢
  cases hstage : call.stage with
  | looking => trivial
  | seeding => trivial
  | adding seed =>
      rw [hstage] at h
      intro hgone
      obtain ⟨hcounter, rfl⟩ := hkeep hgone
      exact h hcounter
  | lookingAgain =>
      rw [hstage] at h
      exact hthere h
  | missing =>
      rw [hstage] at h
      exact h
  | raising =>
      rw [hstage] at h
      exact ⟨h.1, hthere h.2⟩

theorem settle_answer {ask : Ask} {k number : ℤ} (h : settle ask k = .inr number) :
    ask = .read ∧ number = k := by
  cases ask with
  | read => exact ⟨rfl, (Sum.inr.inj h).symm⟩
  | bump => cases h

theorem settle_goesOn {ask : Ask} {k : ℤ} {stage : Stage} (h : settle ask k = .inl stage) :
    ask = .bump ∧ stage = .raising := by
  cases ask with
  | read => cases h
  | bump => exact ⟨rfl, (Sum.inl.inj h).symm⟩

/-- A call is answered with the counter: a read with the number it finds, a bump with the next
one. -/
theorem next_answer {clock number : ℤ} (h : call.Meets counter answers)
    (hnext : call.stage.next call.ask clock counter = (.inr number, counter')) :
    ∃ k, counter = some k ∧ counter' = some number ∧
      ((call.ask = .read ∧ number = k) ∨ (call.ask = .bump ∧ number = k + 1)) := by
  obtain ⟨ask, start, stage⟩ := call
  unfold Pending.Meets at h
  unfold Stage.next at hnext
  cases stage with
  | looking =>
      cases counter with
      | none => cases hnext
      | some k =>
          obtain ⟨hsettle, rfl⟩ := Prod.mk.inj hnext
          obtain ⟨rfl, rfl⟩ := settle_answer hsettle
          exact ⟨_, rfl, rfl, .inl ⟨rfl, rfl⟩⟩
  | lookingAgain =>
      cases counter with
      | none => cases hnext
      | some k =>
          obtain ⟨hsettle, rfl⟩ := Prod.mk.inj hnext
          obtain ⟨rfl, rfl⟩ := settle_answer hsettle
          exact ⟨_, rfl, rfl, .inl ⟨rfl, rfl⟩⟩
  | raising =>
      obtain ⟨rfl, hthere⟩ := h
      obtain ⟨k, rfl⟩ := Option.ne_none_iff_exists'.mp hthere
      cases hnext
      exact ⟨k, rfl, rfl, .inr ⟨rfl, rfl⟩⟩
  | missing => exact absurd h id
  | seeding => cases hnext
  | adding seed => cases hnext

/-- A call that goes on meets what its next stage relies on, and leaves the counter
as it is, or adds it. -/
theorem next_goesOn {clock : ℤ} {stage : Stage} (h : call.Meets counter answers)
    (hclock : call.stage = .seeding → counter = none → ∀ a ∈ answers, a.number < clock)
    (hnext : call.stage.next call.ask clock counter = (.inl stage, counter')) :
    Pending.Meets counter' answers { call with stage := stage } ∧
      counter' = counter.or call.stage.seed? := by
  obtain ⟨ask, start, before⟩ := call
  unfold Pending.Meets at h
  unfold Stage.next at hnext
  cases before with
  | looking =>
      cases counter with
      | none =>
          cases hnext
          exact ⟨trivial, rfl⟩
      | some k =>
          obtain ⟨hsettle, rfl⟩ := Prod.mk.inj hnext
          obtain ⟨rfl, rfl⟩ := settle_goesOn hsettle
          exact ⟨⟨rfl, Option.some_ne_none k⟩, rfl⟩
  | seeding =>
      cases hnext
      exact ⟨hclock rfl, Option.or_none.symm⟩
  | adding seed =>
      cases hnext
      exact ⟨Option.some_ne_none _, by cases counter <;> rfl⟩
  | lookingAgain =>
      cases counter with
      | none => exact absurd rfl h
      | some k =>
          obtain ⟨hsettle, rfl⟩ := Prod.mk.inj hnext
          obtain ⟨rfl, rfl⟩ := settle_goesOn hsettle
          exact ⟨⟨rfl, Option.some_ne_none k⟩, rfl⟩
  | missing => exact absurd h id
  | raising => cases hnext

end Meets

/-! ### Systems -/

namespace System

variable {σ : Type}

/-- No call that is under way has read the clock or the counter. -/
def Quiet (s : System σ) : Prop :=
  ∀ client call, s.calls client = some call → call.stage = .looking ∨ call.stage = .seeding

/-- An action under which numbers go on ascending: a clock is ahead of what was issued when its time
becomes a seed and there is no counter, and the counter is evicted only while no call has read the
clock or the counter. -/
def Fair (s : System (Option ℤ)) : Action → Prop
  | .turn client clock =>
      ∀ call, s.calls client = some call → call.stage = .seeding → s.store = none →
      ∀ a ∈ s.answers, a.number < clock
  | .evict => s.Quiet
  | _ => True

end System

/-- The counter and the calls agree with what was issued, which ascends. -/
structure Sound (s : System (Option ℤ)) : Prop where
  calls : ∀ client call, s.calls client = some call → call.start < s.moment ∧
      call.Meets s.store s.answers
  issued : ∀ n, s.store = some n → ∀ a ∈ s.answers, a.number ≤ n
  ascending : s.answers.Pairwise fun x y => x.number ≤ y.number ∧
      (y.ask = .bump → x.number < y.number)
  timely : s.answers.Pairwise fun x y => x.finish < y.finish
  ended : ∀ a ∈ s.answers, a.start < a.finish ∧ a.finish < s.moment
  failures : s.failures = []

variable {s s' : System (Option ℤ)} {action : Action}

theorem Sound.start (counter : Option ℤ) : Sound (System.start counter) where
  calls _ _ hcall := by cases hcall
  issued _ _ _ ha := by cases ha
  ascending := .nil
  timely := .nil
  ended _ ha := by cases ha
  failures := rfl

theorem Sound.idle (h : Sound s) : Sound s.tick where
  calls client call hcall :=
    ⟨(h.calls client call hcall).1.trans (Nat.lt_succ_self _), (h.calls client call hcall).2⟩
  issued := h.issued
  ascending := h.ascending
  timely := h.timely
  ended a ha := ⟨(h.ended a ha).1, (h.ended a ha).2.trans (Nat.lt_succ_self _)⟩
  failures := h.failures

theorem Sound.begins (h : Sound s) (client : ℕ) (ask : Ask) :
    Sound (s.setCall client (some ⟨ask, s.moment, .looking⟩)).tick where
  calls other call hcall := by
    rw [System.tick, System.setCall_calls] at hcall
    split at hcall
    · obtain rfl := Option.some.inj hcall
      exact ⟨Nat.lt_succ_self _, trivial⟩
    · exact h.idle.calls other call hcall
  issued := h.issued
  ascending := h.ascending
  timely := h.timely
  ended := h.idle.ended
  failures := h.failures

theorem Sound.evicted (h : Sound s) (hquiet : s.Quiet) :
    Sound (s.withStore (none : Option ℤ)).tick where
  calls client call hcall := by
    refine ⟨(h.idle.calls client call hcall).1, ?_⟩
    rcases hquiet client call hcall with hstage | hstage
    · simp only [Pending.Meets, hstage]
    · simp only [Pending.Meets, hstage]
  issued n hn := absurd hn.symm (Option.some_ne_none n)
  ascending := h.ascending
  timely := h.timely
  ended := h.idle.ended
  failures := h.failures

section Turns

variable {client : ℕ} {clock : ℤ} {call : Pending} {counter : Option ℤ}

theorem Sound.goesOn (h : Sound s) {stage : Stage} (hcall : s.calls client = some call)
    (hclock : call.stage = .seeding → s.store = none → ∀ a ∈ s.answers, a.number < clock)
    (hnext : call.stage.next call.ask clock s.store = (.inl stage, counter)) :
    Sound ((s.withStore counter).setCall client (some { call with stage := stage })).tick := by
  obtain ⟨hstart, hmeets⟩ := h.calls client call hcall
  obtain ⟨hstage, rfl⟩ := next_goesOn hmeets hclock hnext
  have hkeep : s.store.or call.stage.seed? = none → s.store = none ∧ s.answers = s.answers :=
    fun hgone =>
    ⟨(Option.or_eq_none_iff.mp hgone).1, rfl⟩
  constructor
  case calls =>
    intro other pending hpending
    rw [System.tick, System.setCall_calls] at hpending
    split at hpending
    · obtain rfl := Option.some.inj hpending
      exact ⟨hstart.trans (Nat.lt_succ_self _), hstage⟩
    · obtain ⟨hbefore, hmet⟩ := h.calls other pending hpending
      exact ⟨hbefore.trans (Nat.lt_succ_self _), hmet.mono hkeep⟩
  case issued =>
    intro n hn a ha
    rcases Option.or_eq_some_iff.mp hn with hn | ⟨hnone, hseed⟩
    · exact h.issued n hn a ha
    · -- The counter comes with a seed, which waited until there was none.
      simp only [Pending.Meets, Stage.seed?_eq_some.mp hseed] at hmeets
      exact (hmeets hnone a ha).le
  case ascending => exact h.ascending
  case timely => exact h.timely
  case ended => exact h.idle.ended
  case failures => exact h.failures

theorem Sound.answers (h : Sound s) {number : ℤ} (hcall : s.calls client = some call)
    (hnext : call.stage.next call.ask clock s.store = (.inr number, counter)) :
    Sound ((s.withStore counter).answer client call number).tick := by
  obtain ⟨hstart, hmeets⟩ := h.calls client call hcall
  obtain ⟨k, hk, rfl, hnumber⟩ := next_answer hmeets hnext
  have hissued : ∀ a ∈ s.answers, a.number ≤ number ∧ (call.ask = .bump → a.number < number) := by
    intro a ha
    have hle := h.issued k hk a ha
    rcases hnumber with ⟨hask, rfl⟩ | ⟨-, rfl⟩
    · exact ⟨hle, fun hbump => by rw [hask] at hbump; cases hbump⟩
    · exact ⟨by omega, fun _ => by omega⟩
  constructor
  case calls =>
    intro other pending hpending
    rw [System.tick, System.answer_calls] at hpending
    split at hpending
    · cases hpending
    · obtain ⟨hbefore, hmet⟩ := h.calls other pending hpending
      exact ⟨hbefore.trans (Nat.lt_succ_self _),
        hmet.mono fun hgone => absurd hgone (Option.some_ne_none number)⟩
  case issued =>
    intro n hn a ha
    obtain rfl := Option.some.inj hn
    rcases List.mem_append.mp ha with ha | ha
    · exact (hissued a ha).1
    · rw [List.mem_singleton.mp ha]
  case ascending =>
    refine List.pairwise_append.mpr ⟨h.ascending, List.pairwise_singleton _ _, fun x hx y hy => ?_⟩
    rw [List.mem_singleton.mp hy]
    exact hissued x hx
  case timely =>
    refine List.pairwise_append.mpr ⟨h.timely, List.pairwise_singleton _ _, fun x hx y hy => ?_⟩
    rw [List.mem_singleton.mp hy]
    exact (h.ended x hx).2
  case ended =>
    intro a ha
    rcases List.mem_append.mp ha with ha | ha
    · exact h.idle.ended a ha
    · rw [List.mem_singleton.mp ha]
      exact ⟨hstart, Nat.lt_succ_self _⟩
  case failures => exact h.failures

end Turns

/-- What is sound stays sound under fair actions. -/
theorem Sound.happens (h : Sound s) (hact : s.Happens action s') (hfair : s.Fair action) :
    Sound s' := by
  cases hact with
  | idle _ _ => exact h.idle
  | begins client ask _ => exact h.begins client ask
  | evicted => exact h.evicted hfair
  | goesOn client clock call stage counter hcall hnext =>
      exact h.goesOn hcall (hfair call hcall) hnext
  | answers client clock call number counter hcall hnext => exact h.answers hcall hnext

/-- Of two answers the one that ends before the other begins has the smaller number, or the same. -/
theorem Sound.number_le (h : Sound s) {x y : Answer} (hx : x ∈ s.answers) (hy : y ∈ s.answers)
    (hbefore : x.finish < y.start) : x.number ≤ y.number := by
  have hended := (h.ended y hy).1
  obtain ⟨i, hi, rfl⟩ := List.getElem_of_mem hx
  obtain ⟨j, hj, rfl⟩ := List.getElem_of_mem hy
  rcases lt_trichotomy i j with hij | rfl | hji
  · exact (List.pairwise_iff_getElem.mp h.ascending i j hi hj hij).1
  · exact absurd hbefore (by omega)
  · have hlater := List.pairwise_iff_getElem.mp h.timely j i hj hi hji
    exact absurd hbefore (by omega)

theorem Sound.bumped_nodup (h : Sound s) : s.bumped.Nodup := by
  have hless : (s.answers.filter (·.ask = .bump)).Pairwise fun x y => x.number < y.number := by
    refine (h.ascending.filter _).imp_of_mem fun _ hy hxy => hxy.2 ?_
    exact of_decide_eq_true (List.mem_filter.mp hy).2
  exact (List.pairwise_map.mpr hless).imp fun hlt => hlt.ne

end Cache
end AccessControl
