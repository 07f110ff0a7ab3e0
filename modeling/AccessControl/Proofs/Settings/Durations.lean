import AccessControl.Proofs.Numeric.Durations
import AccessControl.Proofs.Schema.Checks
import AccessControl.Settings.Read
import Mathlib

/-! # Durations that are configured

A value denotes a number of seconds or none (`secondsOf`).  It gives a duration when that number is
above zero and below the limit of durations (`exists_of_readDuration`), and the duration is nothing
just when the number is half a microsecond or less.  What stops the reading is told exactly
(`readDuration_eq_stopped_iff`): values that are no numbers and no texts, seconds past the limit,
and whole numbers so far below zero that no floating-point number stands for them.  All values are
values of JSON, so none is a duration already. -/

namespace AccessControl.Settings

open Double (worth AtLeast)
open Duration (secondLimit roundSeconds)
open Schema (Checked)
open Schema.Checked (andThen_eq_ok_iff andThen_eq_stopped_iff)

variable {label : String} {v : Value} {x : Double} {why : Failure}

/-! ### Seconds that are denoted -/

/-- The number that a text denotes, with a unit or without. -/
def secondsIn (text : String) : Option Double :=
  (Double.read (Text.strip text)).or (readWithUnit (Text.strip text))

/-- The number of seconds that a value denotes. -/
def secondsOf : Value → Option Double
  | .bool b => some (Double.ofInt (if b then 1 else 0))
  | .int n => some (Double.ofInt n)
  | .float x => some x
  | .text text => secondsIn text
  | _ => none

theorem canonical_readWithUnit {s : String} (h : readWithUnit s = some x) : x.Canonical := by
  unfold readWithUnit at h
  split at h
  · cases h
  · dsimp only at h
    split at h
    · cases h
    · split at h
      · cases h
      · obtain ⟨y, -, rfl⟩ := Option.map_eq_some_iff.mp h
        exact Double.canonical_scaleBy _ y

theorem canonical_secondsOf (hfloat : ∀ y, v = .float y → y.Canonical) (h : secondsOf v = some x) :
    x.Canonical := by
  cases v with
  | bool b =>
      cases h
      exact Double.canonical_ofInt _
  | int n =>
      cases h
      exact Double.canonical_ofInt n
  | float y =>
      cases h
      exact hfloat x rfl
  | text text =>
      rw [secondsOf, secondsIn] at h
      rcases Option.or_eq_some_iff.mp h with hread | ⟨-, hunit⟩
      · exact Double.canonical_read hread
      · exact canonical_readWithUnit hunit
  | null => cases h
  | list items => cases h
  | object fields => cases h

theorem secondsIn_of_blank {text : String} (h : (Text.strip text).isEmpty = true) :
    secondsIn text = none := by
  rw [secondsIn, String.isEmpty_iff.mp h]
  decide

theorem readSeconds_text (label text : String) :
    (∀ x, readSeconds label (.text text) = .ok x ↔ secondsIn text = some x) ∧
      ∀ why, readSeconds label (.text text) ≠ .stopped why := by
  rw [readSeconds]
  by_cases hblank : (Text.strip text).isEmpty = true
  · simp [hblank, secondsIn_of_blank hblank, Checked.refused]
  · rw [if_neg hblank, secondsIn]
    cases Double.read (Text.strip text) with
    | some y => simp
    | none =>
        cases readWithUnit (Text.strip text) with
        | some y => simp
        | none => simp [Checked.refused]

/-- Seconds that are read are those that the value denotes. -/
theorem secondsOf_of_readSeconds (h : readSeconds label v = .ok x) : secondsOf v = some x := by
  cases v with
  | bool b =>
      cases h
      rfl
  | int n =>
      rw [readSeconds] at h
      split at h
      · cases h
      · cases h
        rfl
  | float y =>
      cases h
      rfl
  | text text => exact ((readSeconds_text label text).1 x).mp h
  | null => cases h
  | list items => cases h
  | object fields => cases h

/-! ### From seconds to a duration -/

theorem settle_finite (label : String) {m : ℕ} {e : ℤ} (h : (Double.finite false m e).Canonical)
    (hm : m ≠ 0) :
    settle label (.finite false m e) =
      if (m : ℚ) * 2 ^ e < secondLimit then
        .ok ⟨roundSeconds (.finite false m e)⟩
      else .stopped .range := by
  have hpositive : (Double.finite false m e).isNotPositive = false := by
    simp [Double.isNotPositive, hm]
  rw [settle, hpositive, if_neg Bool.false_ne_true, Duration.ofSeconds_finite h]
  by_cases hlt : (m : ℚ) * 2 ^ e < secondLimit
  · rw [if_pos hlt, if_pos hlt]
  · rw [if_neg hlt, if_neg hlt]

/-- Seconds above zero and below the limit are a duration. -/
theorem exists_of_settle (hx : x.Canonical) {d : Duration} (h : settle label x = .ok d) :
    ∃ q, x.worth = some q ∧ 0 < q ∧ 0 ≤ d.micros ∧ (d.micros = 0 ↔ q ≤ 1 / 2000000) := by
  cases x with
  | nan => cases h
  | infinite negative => cases negative <;> cases h
  | finite negative m e =>
      cases negative with
      | true => cases h
      | false =>
          by_cases hm : m = 0
          · subst hm
            cases h
          · rw [settle_finite label hx hm] at h
            split at h
            · cases h
              have hpos : (0 : ℚ) < m * 2 ^ e := by positivity
              exact ⟨_, rfl, hpos, Duration.roundSeconds_nonneg m e,
                Duration.roundSeconds_eq_zero_iff hx⟩
            · cases h

/-- Seconds stop the reading just when they are past the limit. -/
theorem settle_eq_stopped_iff (hx : x.Canonical) :
    settle label x = .stopped why ↔ x.AtLeast secondLimit ∧ why = .range := by
  cases x with
  | nan => simp [settle, Double.isNotPositive, Duration.ofSeconds, Checked.refused, AtLeast, worth]
  | infinite negative =>
      cases negative <;> simp [settle, Double.isNotPositive, Duration.ofSeconds, Checked.refused,
        AtLeast, worth, eq_comm]
  | finite negative m e =>
      cases negative with
      | true =>
          refine iff_of_false (by simp [settle, Double.isNotPositive, Checked.refused]) fun hle =>
            ?_
          exact Double.not_atLeast_below Double.secondLimit_pos m e hle.1
      | false =>
          rw [Double.atLeast_finite]
          by_cases hm : m = 0
          · subst hm
            refine iff_of_false (by simp [settle, Double.isNotPositive, Checked.refused]) fun hle =>
              ?_
            rw [Nat.cast_zero, zero_mul] at hle
            exact absurd hle.1 (not_le.mpr Double.secondLimit_pos)
          · rw [settle_finite label hx hm]
            by_cases hlt : (m : ℚ) * 2 ^ e < secondLimit
            · simp [hlt]
            · simp [hlt, not_lt.mp hlt, eq_comm]

/-- A duration that is read comes from seconds above zero, and is nothing just when they are half
a microsecond or less. -/
theorem exists_of_readDuration (hfloat : ∀ y, v = .float y → y.Canonical) {d : Duration}
    (h : readDuration label v = .ok d) :
    ∃ x q, secondsOf v = some x ∧ x.worth = some q ∧ 0 < q ∧ 0 ≤ d.micros ∧
      (d.micros = 0 ↔ q ≤ 1 / 2000000) := by
  obtain ⟨x, hx, hd⟩ := andThen_eq_ok_iff.mp h
  have hseconds := secondsOf_of_readSeconds hx
  obtain ⟨q, hq⟩ := exists_of_settle (canonical_secondsOf hfloat hseconds) hd
  exact ⟨x, q, hseconds, hq⟩

/-! ### What stops the reading -/

/-- A value whose seconds are past the limit, or so far below zero that no floating-point
number stands for them. -/
def Endless : Value → Prop
  | .int n => secondLimit ≤ n ∨ n ≤ -Double.overflow
  | .float x => x.AtLeast secondLimit
  | .text text => ∃ x, secondsIn text = some x ∧ x.AtLeast secondLimit
  | _ => False

/-- A value that is no number and no text. -/
def NoSeconds (v : Value) : Prop :=
  v = .null ∨ (∃ items, v = .list items) ∨ ∃ fields, v = .object fields

theorem readInt_eq_stopped_iff (n : ℤ) :
    readDuration label (.int n) = .stopped why ↔ Endless (.int n) ∧ why = .range := by
  have hlimit : secondLimit ≤ Double.overflow := by decide +kernel
  have hsettle := @settle_eq_stopped_iff label _ why (Double.canonical_ofInt n)
  rw [Double.ofInt_atLeast_iff] at hsettle
  rw [readDuration, readSeconds]
  by_cases hgreat : Double.overflow ≤ n.natAbs
  · obtain ⟨negative, hinfinite⟩ := (Double.ofInt_eq_infinite_iff n).mpr hgreat
    have hendless : Endless (.int n) := by
      change (secondLimit : ℤ) ≤ n ∨ n ≤ -Double.overflow
      omega
    rw [hinfinite]
    simp [Schema.Checked.andThen, hendless, eq_comm]
  · have hfinite : ∀ negative, Double.ofInt n ≠ .infinite negative :=
      fun negative h => hgreat ((Double.ofInt_eq_infinite_iff n).mp ⟨negative, h⟩)
    have hendless : Endless (.int n) ↔ (secondLimit : ℤ) ≤ n := by
      change (secondLimit : ℤ) ≤ n ∨ n ≤ -Double.overflow ↔ _
      omega
    rw [hendless, ← hsettle]
    split
    · next h => exact absurd h (hfinite _)
    · rfl

theorem readText_eq_stopped_iff (text : String) :
    readDuration label (.text text) = .stopped why ↔ Endless (.text text) ∧ why = .range := by
  obtain ⟨hseconds, hstopped⟩ := readSeconds_text label text
  have hcanonical : ∀ x, secondsIn text = some x → x.Canonical :=
    fun x hx => canonical_secondsOf (v := .text text) (fun y hy => by cases hy) hx
  rw [readDuration, andThen_eq_stopped_iff, or_iff_right (hstopped why)]
  constructor
  · rintro ⟨x, hx, hwhy⟩
    have hsome := (hseconds x).mp hx
    obtain ⟨hlong, rfl⟩ := (settle_eq_stopped_iff (hcanonical x hsome)).mp hwhy
    exact ⟨⟨x, hsome, hlong⟩, rfl⟩
  · rintro ⟨⟨x, hsome, hlong⟩, rfl⟩
    exact ⟨x, (hseconds x).mpr hsome, (settle_eq_stopped_iff (hcanonical x hsome)).mpr ⟨hlong, rfl⟩⟩

/-- What stops the reading of a duration: a value that is no number and no text, or one that is
endless. -/
theorem readDuration_eq_stopped_iff (hfloat : ∀ y, v = .float y → y.Canonical) :
    readDuration label v = .stopped why ↔
      NoSeconds v ∧ why = .type (some (label ++ " must be number, duration string, or timedelta")) ∨
        Endless v ∧ why = .range := by
  cases v with
  | bool b =>
      have hlimit : ¬ (secondLimit : ℤ) ≤ if b then 1 else 0 := by
        rw [Duration.secondLimit_eq]
        cases b <;> decide
      have hsettle :=
        @settle_eq_stopped_iff label _ why (Double.canonical_ofInt (if b then 1 else 0))
      rw [Double.ofInt_atLeast_iff] at hsettle
      refine iff_of_false (fun h => hlimit (hsettle.mp h).1) ?_
      simp [NoSeconds, Endless]
  | int n => simpa [NoSeconds] using readInt_eq_stopped_iff n
  | float x =>
      have hsettle : readDuration label (.float x) = .stopped why ↔ Endless (.float x) ∧
          why = .range :=
        settle_eq_stopped_iff (hfloat x rfl)
      simpa [NoSeconds] using hsettle
  | text text => simpa [NoSeconds] using readText_eq_stopped_iff text
  | null => simp [NoSeconds, Endless, readDuration, readSeconds, Schema.Checked.andThen, eq_comm]
  | list items =>
      simp [NoSeconds, Endless, readDuration, readSeconds, Schema.Checked.andThen, eq_comm]
  | object fields =>
      simp [NoSeconds, Endless, readDuration, readSeconds, Schema.Checked.andThen, eq_comm]

end AccessControl.Settings
