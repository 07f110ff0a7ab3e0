import AccessControl.Text.Regex
import Mathlib

/-! # What regular expressions stand for

`Regex.Leaves` says which characters are left when a form is taken from the front of others,
without any order of search: a repeated part is taken any number of times.  The search decides it
(`search_iff`), so an expression accepts a text when nothing is left of it (`accepts_iff`).  What
is taken from the front leaves a suffix (`Leaves.suffix`), which is why the search may skip
repetitions that take nothing. -/

namespace AccessControl

open Relation (ReflTransGen)

namespace CharSet

variable {c d : Char}

theorem contains_single : (single c).contains d = true ↔ d = c := by
  simp only [contains, single, List.any_cons, List.any_nil, Bool.or_false, Bool.bne_false,
    Bool.and_eq_true, decide_eq_true_iff]
  exact ⟨fun h => le_antisymm h.2 h.1, fun h => ⟨h.ge, h.le⟩⟩

theorem contains_except : (except c).contains d = true ↔ d ≠ c := by
  have hnot : (except c).contains d = !(single c).contains d := by simp [contains, except, single]
  rw [hnot, Bool.not_eq_true', ← Bool.not_eq_true, contains_single]

theorem forall_contains_except {run : List Char} :
    (∀ d ∈ run, (except c).contains d = true) ↔ c ∉ run := by
  simp only [contains_except]
  constructor
  · exact fun h hmem => h c hmem rfl
  · rintro h d hd rfl
    exact h hd

end CharSet

namespace Regex

variable {length : ℕ} {r : Regex} {cs rest : List Char}

/-! ### Forms and what they leave -/

/-- What is left when a form is taken from the front of characters of a text of the given length. -/
def Leaves (length : ℕ) : Regex → List Char → List Char → Prop
  | .empty, cs, rest => rest = cs
  | .one s, cs, rest => ∃ c, cs = c :: rest ∧ s.contains c = true
  | .start, cs, rest => rest = cs ∧ cs.length = length
  | .finish, cs, rest => rest = cs ∧ (cs = [] ∨ cs = ['\n'])
  | .seq first second, cs, rest =>
      ∃ middle, Leaves length first cs middle ∧ Leaves length second middle rest
  | .either first second, cs, rest => Leaves length first cs rest ∨ Leaves length second cs rest
  | .star part, cs, rest => ReflTransGen (Leaves length part) cs rest

theorem Leaves.suffix (h : r.Leaves length cs rest) : rest <:+ cs := by
  induction r generalizing cs rest with
  | empty => exact h ▸ List.suffix_rfl
  | one s =>
      obtain ⟨c, rfl, -⟩ := h
      exact List.suffix_cons c rest
  | start => exact h.1 ▸ List.suffix_rfl
  | finish => exact h.1 ▸ List.suffix_rfl
  | seq first second ihfirst ihsecond =>
      obtain ⟨middle, hfirst, hsecond⟩ := h
      exact (ihsecond hsecond).trans (ihfirst hfirst)
  | either first second ihfirst ihsecond =>
      rcases h with h | h
      · exact ihfirst h
      · exact ihsecond h
  | star part ih =>
      change ReflTransGen _ cs rest at h
      induction h with
      | refl => exact List.suffix_rfl
      | tail _ hlast ihrun => exact (ih hlast).trans ihrun

/-! ### Search -/

/-- The count of a repetition may be any that is not less than the characters that are left.
By induction on the steps of the repetition: a step that takes nothing is skipped, any other
leaves fewer characters. -/
theorem repeated_iff {step : List Char → List Char → Prop}
    {part : (List Char → Bool) → List Char → Bool}
    (hpart : ∀ goOn cs, part goOn cs = true ↔ ∃ rest, step cs rest ∧ goOn rest = true)
    (hsuffix : ∀ cs rest, step cs rest → rest <:+ cs) (goOn : List Char → Bool) {count : ℕ}
    (hcount : cs.length ≤ count) :
    repeated part goOn count cs = true ↔ ∃ rest, ReflTransGen step cs rest ∧ goOn rest = true := by
  constructor
  · intro h
    induction count generalizing cs with
    | zero => exact ⟨cs, .refl, h⟩
    | succ count ih =>
        rw [repeated, Bool.or_eq_true, hpart] at h
        rcases h with h | ⟨next, hstep, hnext⟩
        · exact ⟨cs, .refl, h⟩
        · rw [Bool.and_eq_true, decide_eq_true_iff] at hnext
          obtain ⟨hshorter, hmore⟩ := hnext
          obtain ⟨rest, hrest, hgo⟩ := ih (by omega) hmore
          exact ⟨rest, .head hstep hrest, hgo⟩
  · rintro ⟨rest, hrun, hgo⟩
    induction hrun using ReflTransGen.head_induction_on generalizing count with
    | refl =>
        cases count with
        | zero => exact hgo
        | succ count => rw [repeated, hgo, Bool.true_or]
    | @head cs next hstep _ ih =>
        rcases (hsuffix cs next hstep).length_le.lt_or_eq with hshorter | hsame
        · obtain ⟨count, rfl⟩ : ∃ n, count = n + 1 := ⟨count - 1, by omega⟩
          rw [repeated, Bool.or_eq_true, hpart]
          refine .inr ⟨next, hstep, ?_⟩
          rw [Bool.and_eq_true, decide_eq_true_iff]
          exact ⟨hshorter, ih (by omega)⟩
        · obtain rfl := (hsuffix cs next hstep).eq_of_length hsame
          exact ih hcount

/-- The search finds a way whenever there is one. -/
theorem search_iff {goOn : List Char → Bool} :
    r.search length goOn cs = true ↔ ∃ rest, r.Leaves length cs rest ∧ goOn rest = true := by
  induction r generalizing goOn cs with
  | empty => simp [search, Leaves]
  | one s =>
      cases cs with
      | nil => simp [search, Leaves]
      | cons c cs => simp [search, Leaves, and_comm]
  | start => simp [search, Leaves]
  | finish => simp [search, Leaves]
  | seq first second ihfirst ihsecond =>
      simp only [search, ihfirst, ihsecond, Leaves]
      constructor
      · rintro ⟨middle, hfirst, rest, hsecond, hgo⟩
        exact ⟨rest, ⟨middle, hfirst, hsecond⟩, hgo⟩
      · rintro ⟨rest, ⟨middle, hfirst, hsecond⟩, hgo⟩
        exact ⟨middle, hfirst, rest, hsecond, hgo⟩
  | either first second ihfirst ihsecond =>
      simp only [search, Bool.or_eq_true, ihfirst, ihsecond, Leaves, or_and_right, exists_or]
  | star part ih =>
      have hpart : ∀ goOn cs, part.search length goOn cs = true ↔
          ∃ rest, part.Leaves length cs rest ∧ goOn rest = true := fun goOn cs => ih
      exact repeated_iff hpart (fun cs rest h => h.suffix) goOn le_rfl

theorem accepts_iff {text : String} :
    r.accepts text = true ↔ r.Leaves text.toList.length text.toList [] := by
  rw [accepts, search_iff]
  simp

/-! ### Repeated sets -/

theorem leaves_star_one_iff {s : CharSet} : (star (.one s)).Leaves length cs rest ↔
    ∃ run, cs = run ++ rest ∧ ∀ c ∈ run, s.contains c = true := by
  constructor
  · intro h
    change ReflTransGen _ cs rest at h
    induction h using ReflTransGen.head_induction_on with
    | refl => exact ⟨[], rfl, List.forall_mem_nil _⟩
    | head hstep _ ih =>
        obtain ⟨c, rfl, hc⟩ := hstep
        obtain ⟨run, rfl, hrun⟩ := ih
        exact ⟨c :: run, rfl, List.forall_mem_cons.mpr ⟨hc, hrun⟩⟩
  · rintro ⟨run, rfl, hrun⟩
    induction run with
    | nil => exact .refl
    | cons c run ih =>
        obtain ⟨hc, hrun⟩ := List.forall_mem_cons.mp hrun
        exact .head ⟨c, rfl, hc⟩ (ih hrun)

theorem leaves_plus_one_iff {s : CharSet} : (plus (.one s)).Leaves length cs rest ↔
    ∃ run, cs = run ++ rest ∧ run ≠ [] ∧ ∀ c ∈ run, s.contains c = true := by
  constructor
  · rintro ⟨_, ⟨c, rfl, hc⟩, hmore⟩
    obtain ⟨run, rfl, hrun⟩ := leaves_star_one_iff.mp hmore
    exact ⟨c :: run, rfl, List.cons_ne_nil c run, List.forall_mem_cons.mpr ⟨hc, hrun⟩⟩
  · rintro ⟨run, rfl, hne, hrun⟩
    cases run with
    | nil => exact absurd rfl hne
    | cons c run =>
        obtain ⟨hc, hrun⟩ := List.forall_mem_cons.mp hrun
        exact ⟨run ++ rest, ⟨c, rfl, hc⟩, leaves_star_one_iff.mpr ⟨run, rfl, hrun⟩⟩

end Regex
end AccessControl
