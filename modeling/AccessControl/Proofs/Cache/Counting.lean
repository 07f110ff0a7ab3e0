import AccessControl.Proofs.Cache.Issued
import Mathlib

/-! # No bump is lost

While the counter is not deleted, whatever the order of the steps of all calls is, the counter is
the first number that it got and one more for every bump that was answered (`Lasting.run`): what the
counter would be without the bumps is set once and stays (`System.base`).  So bumps are answered
with different numbers, the counter never falls, and a call that begins after another one has ended
gets no smaller number (`bumps_counted`). -/

namespace AccessControl
namespace Cache

/-- A system whose counter has not been deleted: nothing was issued before the counter was there. -/
structure Lasting (s : System (Option ℤ)) : Prop extends Sound s where
  unissued : s.store = none → s.answers = []

theorem Lasting.start (counter : Option ℤ) : Lasting (System.start counter) :=
  ⟨.start counter, fun _ => rfl⟩

namespace System

/-- What the counter would be without the bumps. -/
def base (s : System (Option ℤ)) : Option ℤ := s.store.map (· - s.bumped.length)

theorem store_eq_base (s : System (Option ℤ)) :
    s.store = s.base.map (· + (s.bumped.length : ℤ)) := by
  unfold base
  cases s.store with
  | none => rfl
  | some n => simp

theorem bumped_answer (s : System (Option ℤ)) (client : ℕ) (call : Pending) (number : ℤ) :
    (s.answer client call number).bumped = s.bumped ++ if call.ask = .bump then [number]
      else [] := by
  unfold bumped answer
  rw [List.filter_append, List.map_append]
  cases call.ask <;> rfl

end System

variable {s s' : System (Option ℤ)} {action : Action}

theorem Lasting.fair (h : Lasting s) (hkept : action ≠ .evict) : s.Fair action := by
  cases action with
  | turn client clock =>
      intro call _ _ hgone a ha
      rw [h.unissued hgone] at ha
      cases ha
  | evict => exact absurd rfl hkept
  | begin client ask => trivial
  | pass seconds => trivial

/-- One action: the counter begins with the seed that is added first, and is raised by bumps
alone. -/
theorem Lasting.happens (h : Lasting s) (hact : s.Happens action s') (hkept : action ≠ .evict) :
    Lasting s' ∧ s'.base = s.base.or (s.adds action) ∧ s.bumped.length ≤ s'.bumped.length := by
  have hsound := h.toSound.happens hact (h.fair hkept)
  cases hact with
  | idle _ hidle =>
      have hadds : s.adds action = none := by
        cases action with
        | turn client clock => rw [System.adds, hidle client clock rfl, Option.bind_none]
        | _ => rfl
      exact ⟨⟨hsound, h.unissued⟩, by rw [hadds, Option.or_none]; rfl, le_rfl⟩
  | begins client ask _ => exact ⟨⟨hsound, h.unissued⟩, (Option.or_none).symm, le_rfl⟩
  | evicted => exact absurd rfl hkept
  | goesOn client clock call stage counter hcall hnext =>
      have hclock : call.stage = .seeding → s.store = none → ∀ a ∈ s.answers, a.number < clock :=
        h.fair hkept call hcall
      obtain ⟨-, rfl⟩ := next_goesOn (h.calls client call hcall).2 hclock hnext
      have hadds : s.adds (.turn client clock) = call.stage.seed? := by
        rw [System.adds, hcall, Option.bind_some]
      refine ⟨⟨hsound, fun hgone => h.unissued (Option.or_eq_none_iff.mp hgone).1⟩, ?_, le_rfl⟩
      change (s.store.or call.stage.seed?).map (· - (s.bumped.length : ℤ)) = _
      rw [hadds, System.base]
      cases hstore : s.store with
      | none =>
          -- No bump was answered before the counter was there.
          rw [Option.none_or, System.bumped, h.unissued hstore]
          simp
      | some k => rfl
  | answers client clock call number counter hcall hnext =>
      obtain ⟨k, hk, rfl, hnumber⟩ := next_answer (h.calls client call hcall).2 hnext
      have hbumped : ((s.withStore (some number)).answer client call number).tick.bumped =
          s.bumped ++ if call.ask = .bump then [number] else [] :=
        System.bumped_answer _ client call number
      refine ⟨⟨hsound, fun hgone => absurd hgone (Option.some_ne_none number)⟩, ?_, ?_⟩
      · have hbase : s.base = some (k - s.bumped.length) := by rw [System.base, hk, Option.map_some]
        rw [hbase, Option.some_or, System.base, hbumped]
        change some (number - _) = _
        rcases hnumber with ⟨hask, rfl⟩ | ⟨hask, rfl⟩
        · simp [hask]
        · simp [hask]
      · rw [hbumped, List.length_append]
        exact Nat.le_add_right _ _

/-- Any number of actions: the counter is what it was before or what was added first, and
one more for every bump. -/
theorem Lasting.run (h : Lasting s) {actions : List Action} (hkept : .evict ∉ actions) :
    Lasting (s.run numberServer actions) ∧
      (s.run numberServer actions).base = s.base.or (s.firstAdded numberServer actions) ∧
      s.bumped.length ≤ (s.run numberServer actions).bumped.length := by
  induction actions generalizing s with
  | nil => exact ⟨h, Option.or_none.symm, le_rfl⟩
  | cons action actions ih =>
      rw [List.mem_cons, not_or] at hkept
      obtain ⟨hlasting, hbase, hle⟩ := h.happens (s.happens action) (Ne.symm hkept.1)
      obtain ⟨hlasting', hbase', hle'⟩ := ih hlasting hkept.2
      refine ⟨hlasting', ?_, hle.trans hle'⟩
      rw [System.firstAdded_cons, ← Option.or_assoc, ← hbase]
      exact hbase'

theorem Lasting.le_run (h : Lasting s) {actions : List Action} (hkept : .evict ∉ actions) {n : ℤ}
    (hn : s.store = some n) :
    ∃ k, (s.run numberServer actions).store = some k ∧ n ≤ k := by
  obtain ⟨-, hbase, hle⟩ := h.run hkept
  have hfixed : (s.run numberServer actions).base = some (n - s.bumped.length) := by
    rw [hbase, System.base, hn, Option.map_some, Option.some_or]
  refine ⟨n - s.bumped.length + (s.run numberServer actions).bumped.length, ?_, by omega⟩
  rw [System.store_eq_base, hfixed, Option.map_some]

/-- Clients read and bump a counter that is never deleted, their steps falling in any order.  No
call fails.  Bumps are answered with different numbers, and the counter is what it was or what was
added first, and one more for each of them.  The counter never falls, and a call that begins after
another one has ended is answered with no smaller number. -/
theorem bumps_counted {shared : Bool} {key : String} {c : Cache} {counter : Option ℤ}
    (h : Counts shared key c counter) {actions : List Action} (hkept : .evict ∉ actions)
    (hroom : Roomy shared counter actions) :
    let s := (System.start c).run (cacheServer key) actions
    s.failures = [] ∧ s.bumped.Nodup ∧
      number? key s.store = (counter.or ((System.start c).firstAdded (cacheServer key) actions)).map
        (· + (s.bumped.length : ℤ)) ∧
      (∀ before after, actions = before ++ after → ∀ n,
        number? key ((System.start c).run (cacheServer key) before).store = some n →
          ∃ k, number? key s.store = some k ∧ n ≤ k) ∧
      ∀ x ∈ s.answers, ∀ y ∈ s.answers, x.finish < y.start → x.number ≤ y.number := by
  intro s
  obtain ⟨hhistory, c', hrun, hnumber⟩ := start_lockstep h hroom
  obtain ⟨hlasting, hbase, -⟩ := (Lasting.start counter).run hkept
  have hs : s = ((System.start counter).run numberServer actions).withStore c' := hrun
  have hfirst : (System.start c).firstAdded (cacheServer key) actions =
      (System.start counter).firstAdded numberServer actions := by
    rw [System.firstAdded, hhistory, System.firstAdded]
  have hstart : (System.start counter).base = counter := by
    cases counter with
    | none => rfl
    | some n => exact congrArg some (sub_zero n)
  have hread : number? key s.store = ((System.start counter).run numberServer actions).store := by
    rw [hs]
    exact hnumber
  refine ⟨?_, ?_, ?_, ?_, ?_⟩
  · rw [hs]
    exact hlasting.failures
  · rw [hs]
    exact hlasting.bumped_nodup
  · rw [hread, System.store_eq_base, hbase, hstart, hfirst, hs]
    rfl
  · rintro before after rfl n hn
    obtain ⟨-, c₁, hrun₁, hnumber₁⟩ := start_lockstep h hroom.left
    rw [List.mem_append, not_or] at hkept
    rw [hrun₁] at hn
    rw [hread, System.run_append]
    exact ((Lasting.start counter).run hkept.1).1.le_run hkept.2 (hnumber₁.symm.trans hn)
  · rw [hs]
    exact fun x hx y hy => hlasting.number_le hx hy

/-- Two clients bump a counter that is not there, both find that out, and the second one
is the first to add it. -/
def race : List Action :=
  [.begin 0 .bump, .begin 1 .bump, .turn 0 500, .turn 1 600, .turn 0 500, .turn 1 600, .turn 1 600,
   .turn 0 500, .turn 1 600, .turn 0 500, .turn 1 600, .turn 0 500]

theorem roomy_race : Roomy true none race := by
  refine fun _ => ⟨600, ?_, fun client clock hmem => ?_, ?_⟩
  · exact fun n hn => absurd hn.symm (Option.some_ne_none n)
  · simp only [race, List.mem_cons, List.not_mem_nil, reduceCtorEq, Action.turn.injEq, false_or,
      or_false] at hmem
    omega
  · calc 600 + race.length < 10 ^ 3 := by decide
      _ ≤ 10 ^ Text.digitLimit := Nat.pow_le_pow_right (by decide) (by decide)

theorem bumps_counted_race : .evict ∉ race ∧ Roomy true none race ∧
    ((System.start (fresh (.remote .empty))).run versionServer race).bumped.Nodup ∧
    number? (versionKey "authz")
      ((System.start (fresh (.remote .empty))).run versionServer race).store = some 602 := by
  have hcounts : Counts true (versionKey "authz") (fresh (.remote .empty)) none :=
    counts_emptyRemote rfl
  have hkept : .evict ∉ race := by decide
  obtain ⟨-, hnodup, hnumber, -⟩ := bumps_counted hcounts hkept roomy_race
  exact ⟨hkept, roomy_race, hnodup, hnumber.trans rfl⟩

end Cache
end AccessControl
