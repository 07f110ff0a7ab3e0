import AccessControl.Proofs.Cache.Issued
import Mathlib

/-! # A counter that is evicted

A counter that is gone begins again at a seed from the clock.  When the clocks run ahead of all that
was issued, and the counter is evicted only while no call holds a seed or has read the number, it
comes back with a greater number than any that was issued, and a call that begins after another one
has ended is answered with no smaller number (`answers_ascend`).

Evictions at other times are not safe, however the clocks run.  A counter that is gone when a bump
raises it begins at one (`falls_raising`), a seed may be stored after greater numbers were issued
(`falls_adding`), and a call that does not find what it has added is answered from the clock while a
smaller seed is stored (`falls_lookingAgain`). -/

namespace AccessControl
namespace Cache

namespace System

variable {σ : Type}

/-- A clock that becomes a seed, or an answer, is ahead of all that was issued. -/
def Ahead (s : System σ) : Action → Prop
  | .turn client clock => ∀ call ∈ s.calls client, call.stage = .seeding ∨ call.stage = .missing →
      ∀ a ∈ s.answers, a.number < clock
  | _ => True

instance (s : System σ) (action : Action) : Decidable (s.Ahead action) :=
  match action with
  | .turn client clock =>
      inferInstanceAs (Decidable (∀ call ∈ s.calls client, call.stage = .seeding ∨
      call.stage = .missing → ∀ a ∈ s.answers, a.number < clock))
  | .begin _ _ => isTrue trivial
  | .evict => isTrue trivial
  | .pass _ => isTrue trivial

/-- All clocks are ahead when they are read. -/
def ClocksAhead (server : Server σ) (actions : List Action) (s : System σ) : Prop :=
  ∀ p ∈ s.history server actions, p.1.Ahead p.2

instance (server : Server σ) (actions : List Action) (s : System σ) :
    Decidable (s.ClocksAhead server actions) :=
  inferInstanceAs (Decidable (∀ p ∈ s.history server actions, p.1.Ahead p.2))

/-- The counter is evicted only while no call has read the clock or the counter. -/
def Calm (server : Server σ) (actions : List Action) (s : System σ) : Prop :=
  ∀ p ∈ s.history server actions, p.2 = .evict → p.1.Quiet

theorem clocksAhead_append {server : Server σ} {actions more : List Action} {s : System σ} :
    s.ClocksAhead server (actions ++ more) ↔
      s.ClocksAhead server actions ∧ (s.run server actions).ClocksAhead server more := by
  rw [ClocksAhead, history_append, List.forall_mem_append]
  rfl

theorem calm_append {server : Server σ} {actions more : List Action} {s : System σ} :
    s.Calm server (actions ++ more) ↔
      s.Calm server actions ∧ (s.run server actions).Calm server more := by
  rw [Calm, history_append, List.forall_mem_append]
  rfl

theorem calm_cons {server : Server σ} {action : Action} {actions : List Action} {s : System σ} :
    s.Calm server (action :: actions) ↔
      (action = .evict → (s.withStore ()).Quiet) ∧ (s.act server action).Calm server actions := by
  rw [Calm, history, List.forall_mem_cons]
  rfl

theorem calm_of_kept {server : Server σ} {actions : List Action} (hkept : .evict ∉ actions)
    (s : System σ) :
    s.Calm server actions := by
  induction actions generalizing s with
  | nil => exact List.forall_mem_nil _
  | cons action actions ih =>
      rw [List.mem_cons, not_or] at hkept
      exact calm_cons.mpr ⟨fun hevict => absurd hevict.symm hkept.1, ih hkept.2 _⟩

end System

variable {s s' : System (Option ℤ)} {action : Action} {actions : List Action}

theorem fair_of_calm (hahead : (s.withStore ()).Ahead action)
    (hcalm : action = .evict → (s.withStore ()).Quiet) :
    s.Fair action := by
  cases action with
  | turn client clock => exact fun call hcall hstage _ => hahead call hcall (.inl hstage)
  | evict => exact hcalm rfl
  | begin client ask => trivial
  | pass seconds => trivial

/-- The counter is greater than all of some answers, whenever it is there. -/
structure Above (answers : List Answer) (s : System (Option ℤ)) : Prop where
  given : ∀ a ∈ answers, a ∈ s.answers
  less : ∀ n, s.store = some n → ∀ a ∈ answers, a.number < n

theorem Above.nil (s : System (Option ℤ)) : Above [] s :=
  ⟨List.forall_mem_nil _, fun _ _ => List.forall_mem_nil _⟩

theorem Above.happens {answers : List Answer} (habove : Above answers s) (h : Sound s)
    (hact : s.Happens action s') (hfair : s.Fair action) : Above answers s' := by
  cases hact with
  | idle _ _ => exact ⟨habove.given, habove.less⟩
  | begins client ask _ => exact ⟨habove.given, habove.less⟩
  | evicted => exact ⟨habove.given, fun n hn => absurd hn.symm (Option.some_ne_none n)⟩
  | goesOn client clock call stage counter hcall hnext =>
      have hmeets := (h.calls client call hcall).2
      obtain ⟨-, rfl⟩ := next_goesOn hmeets (hfair call hcall) hnext
      refine ⟨habove.given, fun n hn a ha => ?_⟩
      rcases Option.or_eq_some_iff.mp hn with hn | ⟨hnone, hseed⟩
      · exact habove.less n hn a ha
      · simp only [Pending.Meets, Stage.seed?_eq_some.mp hseed] at hmeets
        exact hmeets hnone a (habove.given a ha)
  | answers client clock call number counter hcall hnext =>
      obtain ⟨k, hk, rfl, hnumber⟩ := next_answer (h.calls client call hcall).2 hnext
      refine ⟨fun a ha => List.mem_append_left _ (habove.given a ha), fun n hn a ha => ?_⟩
      have hless := habove.less k hk a ha
      obtain rfl := Option.some.inj hn
      rcases hnumber with ⟨-, rfl⟩ | ⟨-, rfl⟩
      · exact hless
      · exact hless.trans (lt_add_one k)

theorem Sound.run (h : Sound s) (hahead : s.ClocksAhead numberServer actions)
    (hcalm : s.Calm numberServer actions) {answers : List Answer} (habove : Above answers s) :
    Sound (s.run numberServer actions) ∧ Above answers (s.run numberServer actions) := by
  induction actions generalizing s with
  | nil => exact ⟨h, habove⟩
  | cons action actions ih =>
      have hfair : s.Fair action :=
        fair_of_calm (hahead _ List.mem_cons_self) (hcalm _ List.mem_cons_self)
      have hact := s.happens action
      exact ih (h.happens hact hfair) (fun p hp => hahead p (List.mem_cons_of_mem _ hp))
        (fun p hp => hcalm p (List.mem_cons_of_mem _ hp)) (habove.happens h hact hfair)

/-- Clients read and bump a counter that is evicted now and then, their steps falling in any order.
Let every clock be ahead of all that was issued when it is read, and let no eviction fall under a
call that has read the clock or the counter.  Then no call fails, a call that begins after another
one has ended is answered with no smaller number, and a counter that was gone comes back with a
number greater than all that were issued before. -/
theorem answers_ascend {shared : Bool} {key : String} {c : Cache} {counter : Option ℤ}
    (h : Counts shared key c counter) (hroom : Roomy shared counter actions)
    (hahead : (System.start c).ClocksAhead (cacheServer key) actions)
    (hcalm : (System.start c).Calm (cacheServer key) actions) :
    let s := (System.start c).run (cacheServer key) actions
    s.failures = [] ∧ (∀ x ∈ s.answers, ∀ y ∈ s.answers, x.finish < y.start → x.number ≤ y.number) ∧
      ∀ before after, actions = before ++ after →
        number? key ((System.start c).run (cacheServer key) before).store = none →
          ∀ n, number? key s.store = some n →
            ∀ a ∈ ((System.start c).run (cacheServer key) before).answers, a.number < n := by
  intro s
  obtain ⟨hhistory, c', hrun, hnumber⟩ := start_lockstep h hroom
  have hs : s = ((System.start counter).run numberServer actions).withStore c' := hrun
  have hahead' : (System.start counter).ClocksAhead numberServer actions := by
    rwa [System.ClocksAhead, hhistory] at hahead
  have hcalm' : (System.start counter).Calm numberServer actions := by
    rwa [System.Calm, hhistory] at hcalm
  obtain ⟨hsound, -⟩ := (Sound.start counter).run hahead' hcalm' (.nil _)
  refine ⟨?_, ?_, ?_⟩
  · rw [hs]
    exact hsound.failures
  · rw [hs]
    exact fun x hx y hy => hsound.number_le hx hy
  · rintro before after rfl hgone n hn
    -- Before the eviction, and after it: the answers given before are what the counter is above
    -- from then on.
    obtain ⟨-, c₁, hrun₁, hnumber₁⟩ := start_lockstep h hroom.left
    obtain ⟨hahead₁, hahead₂⟩ := System.clocksAhead_append.mp hahead'
    obtain ⟨hcalm₁, hcalm₂⟩ := System.calm_append.mp hcalm'
    obtain ⟨hsound₁, -⟩ := (Sound.start counter).run hahead₁ hcalm₁ (.nil _)
    rw [hrun₁] at hgone ⊢
    have hnone : ((System.start counter).run numberServer before).store = none :=
      hnumber₁.symm.trans hgone
    have habove : Above ((System.start counter).run numberServer before).answers
        ((System.start counter).run numberServer before) :=
      ⟨fun _ ha => ha, fun k hk => absurd (hk.symm.trans hnone) (Option.some_ne_none k)⟩
    obtain ⟨-, habove'⟩ := hsound₁.run hahead₂ hcalm₂ habove
    rw [← System.run_append] at habove'
    rw [hs] at hn
    exact habove'.less n (hnumber.symm.trans hn)

/-- A call alone, at a counter that is not there. -/
def seeded (client : ℕ) (clock : ℤ) : List Action :=
  [.begin client .read, .turn client clock, .turn client clock, .turn client clock,
   .turn client clock]

/-- The number is read, the counter is evicted, and a bump starts it again. -/
def restarted : List Action :=
  seeded 0 1000 ++ [.evict, .begin 1 .bump] ++ List.replicate 5 (.turn 1 2000)

theorem calm_restarted : opening.Calm versionServer restarted := by
  have hnone (client : ℕ) : (opening.run versionServer (seeded 0 1000)).calls client = none := by
    cases client <;> rfl
  rw [restarted, List.append_assoc, System.calm_append, List.cons_append, System.calm_cons]
  refine ⟨System.calm_of_kept (by decide) _, fun _ client call hcall => ?_,
    System.calm_of_kept (by decide) _⟩
  exact absurd (hcall.symm.trans (hnone client)) (Option.some_ne_none call)

theorem answers_ascend_restarted :
    opening.ClocksAhead versionServer restarted ∧ opening.Calm versionServer restarted ∧
    (opening.run versionServer restarted).failures = [] ∧ versionAfter restarted = some 2001 := by
  have hcounts : Counts false (versionKey "authz") (fresh (.memory [])) none :=
    counts_emptyMemory rfl
  have hahead : opening.ClocksAhead versionServer restarted := by decide
  obtain ⟨hfailures, -, -⟩ :=
    answers_ascend hcounts (roomy_memory none restarted) hahead calm_restarted
  exact ⟨hahead, calm_restarted, hfailures, rfl⟩

/-! ### Evictions that are not calm -/

/-- Though every clock is ahead of all that was issued when it is read, a call of the version that
begins after another one has ended is answered with a smaller number. -/
def Falls (actions : List Action) : Prop :=
  opening.ClocksAhead versionServer actions ∧
    ∃ x ∈ (opening.run versionServer actions).answers,
      ∃ y ∈ (opening.run versionServer actions).answers,
      x.finish < y.start ∧ y.number < x.number

/-- The version was gone, and comes back with a number that was issued before. -/
def Returns (actions : List Action) : Prop :=
  ∃ before after, actions = before ++ after ∧ versionAfter before = none ∧
    ∃ a ∈ (opening.run versionServer before).answers, versionAfter actions = some a.number

/-- A bump whose counter is evicted after it was read, and a read that finds what it left. -/
def raised : List Action :=
  seeded 0 1000 ++ [.begin 1 .bump, .turn 1 1001, .evict, .turn 1 1001, .begin 0 .read,
    .turn 0 1001]

/-- Another bump with an eviction under it. -/
def raisedAgain : List Action := [.begin 1 .bump, .turn 1 1002, .evict, .turn 1 1002]

/-- An eviction between the two halves of a bump starts the counter at one, below what was issued,
and a second one lets it come back with the one that was issued in between. -/
theorem falls_raising : Falls (raised ++ raisedAgain) ∧ Returns (raised ++ raisedAgain) := by
  have hanswers : (opening.run versionServer (raised ++ raisedAgain)).answers =
      [⟨.read, 0, 4, 1000⟩, ⟨.bump, 5, 8, 1⟩, ⟨.read, 9, 10, 1⟩, ⟨.bump, 11, 14, 1⟩] := rfl
  refine ⟨⟨by decide, ?_⟩, raised ++ raisedAgain.take 3, raisedAgain.drop 3, rfl, rfl,
    ⟨.read, 9, 10, 1⟩, ?_, rfl⟩
  · rw [hanswers]
    decide
  · exact List.mem_of_mem_getLast? rfl

/-- A read holds a seed while a bump with a later one is answered, and stores it after an
eviction. -/
def storedLate : List Action :=
  [.begin 0 .read, .turn 0 1000, .turn 0 1000, .begin 1 .bump] ++ List.replicate 5 (.turn 1 1001) ++
    [.evict, .turn 0 1002, .turn 0 1002, .begin 1 .read, .turn 1 1002]

theorem falls_adding : Falls storedLate := by
  have hanswers : (opening.run versionServer storedLate).answers =
      [⟨.bump, 3, 8, 1002⟩, ⟨.read, 0, 11, 1000⟩, ⟨.read, 12, 13, 1000⟩] := rfl
  refine ⟨by decide, ?_⟩
  rw [hanswers]
  decide

/-- A read does not find what it has added and looks at the clock, when another read has stored its
seed. -/
def answeredLate : List Action :=
  [.begin 0 .read, .turn 0 1000, .turn 0 1000, .turn 0 1000, .evict, .turn 0 1000, .begin 1 .read,
   .turn 1 1001, .turn 1 1001, .turn 1 1001, .turn 0 1002, .turn 1 1002, .begin 2 .read,
   .turn 2 1002]

theorem falls_lookingAgain : Falls answeredLate := by
  have hanswers : (opening.run versionServer answeredLate).answers =
      [⟨.read, 0, 10, 1002⟩, ⟨.read, 6, 11, 1001⟩, ⟨.read, 12, 13, 1001⟩] := rfl
  refine ⟨by decide, ?_⟩
  rw [hanswers]
  decide

/-- An eviction makes answers fall when a call is about to raise the counter, to add it, or to look
for what it has added. -/
theorem falls_uncalm :
    (Falls (raised ++ raisedAgain) ∧ Returns (raised ++ raisedAgain)) ∧ Falls storedLate ∧
    Falls answeredLate :=
  ⟨falls_raising, falls_adding, falls_lookingAgain⟩

end Cache
end AccessControl
