import AccessControl.Proofs.Settings.Checks
import AccessControl.Proofs.Settings.Durations
import Mathlib

/-! # Failures that are no issues of settings

Settings that cannot be read are refused with their issues, except where the reading of one of them
stops.  Readings that stop are those of durations and of the roles that may do everything; `Escapes`
lists what they stop at.  Where the other settings can be read, a value of one of these settings
leads to a failure that is no list of issues just when it is listed there (`load_escapes_iff`). -/

namespace AccessControl.Settings

open Schema (Checked)
open Schema.Checked (under_eq_stopped_iff verdict_eq_stopped_iff)

variable {v : Value} {why : Failure}

/-! ### Lists of names -/

/-- A value that is no list and no text and not null. -/
def NoNames (v : Value) : Prop :=
  (∃ b, v = .bool b) ∨ (∃ n, v = .int n) ∨ (∃ x, v = .float x) ∨ ∃ fields, v = .object fields

theorem readJsonList_ne_stopped (s : String) : readJsonList s ≠ .stopped why := by
  unfold readJsonList
  split
  · exact fun h => by cases h
  · exact Checked.refused_ne_stopped
  · exact Checked.refused_ne_stopped

theorem readListText_ne_stopped (absent : List String) (text : String) :
    readList absent (.text text) ≠ .stopped why := by
  rw [readList]
  split
  · exact readJsonList_ne_stopped _
  · exact fun h => by cases h

theorem readList_eq_stopped_iff (absent : List String) :
    readList absent v = .stopped why ↔
      NoNames v ∧ why = .type (some "Expected string or list") := by
  cases v with
  | null => simp [readList, NoNames]
  | list items => simp [readList, NoNames]
  | text text => simp [NoNames, readListText_ne_stopped]
  | bool b => simp [readList, NoNames, eq_comm]
  | int n => simp [readList, NoNames, eq_comm]
  | float x => simp [readList, NoNames, eq_comm]
  | object fields => simp [readList, NoNames, eq_comm]

/-! ### All settings -/

/-- The settings that are durations. -/
def durationNames : List String :=
  ["decision_cache_ttl", "ruleset_cache_ttl", "effective_permissions_cache_ttl",
   "all_stores_cache_ttl", "redis_socket_timeout"]

/-- A value of a setting at which the reading stops, and the failure that it stops with. -/
inductive Escapes (name : String) (v : Value) : Failure → Prop
  | noSeconds (hname : name ∈ durationNames) (hv : NoSeconds v) :
      Escapes name v
        (.type (some (messageName name ++ " must be number, duration string, or timedelta")))
  | endless (hname : name ∈ durationNames) (hv : Endless v) : Escapes name v .range
  | noNames (hname : name = "super_roles") (hv : NoNames v) :
      Escapes name v (.type (some "Expected string or list"))

theorem Escapes.ne_schema {name : String} (h : Escapes name v why) (found : List Issue) :
    why ≠ .schema found := by
  cases h <;> exact fun heq => by cases heq

theorem toExcept_eq_error_iff {α : Type} {x : Checked α} (hwhy : ∀ found, why ≠ .schema found) :
    x.toExcept = .error why ↔ x = .stopped why := by
  cases x with
  | ok a => simp [Checked.toExcept]
  | issues found => simpa [Checked.toExcept] using (hwhy found).symm
  | stopped why' => simp [Checked.toExcept]

theorem mem_readings {name : String} (h : name ∈ durationNames) :
    (name, fun v => (readDuration (messageName name) v).verdict) ∈ readings := by
  simp only [durationNames, List.mem_cons, List.not_mem_nil, or_false] at h
  rcases h with rfl | rfl | rfl | rfl | rfl
  · exact List.mem_of_getElem? (i := 8) rfl
  · exact List.mem_of_getElem? (i := 9) rfl
  · exact List.mem_of_getElem? (i := 10) rfl
  · exact List.mem_of_getElem? (i := 11) rfl
  · exact List.mem_of_getElem? (i := 13) rfl

/-- The reading of a duration, or of the roles that may do everything, stops just where it is
listed. -/
theorem exists_reading {name : String} (hname : name ∈ "super_roles" :: durationNames)
    (hfloat : ∀ y, v = .float y → y.Canonical) : ∃ reading, (name, reading) ∈ readings ∧
      ∀ why, reading v = .stopped why ↔ Escapes name v why := by
  rcases List.mem_cons.mp hname with rfl | hduration
  · refine ⟨_, List.mem_of_getElem? (i := 3) rfl, fun why => ?_⟩
    rw [verdict_eq_stopped_iff, readList_eq_stopped_iff]
    constructor
    · rintro ⟨hv, rfl⟩
      exact .noNames rfl hv
    · rintro (⟨hname, -⟩ | ⟨hname, -⟩ | ⟨-, hv⟩)
      · exact absurd hname (by decide)
      · exact absurd hname (by decide)
      · exact ⟨hv, rfl⟩
  · refine ⟨_, mem_readings hduration, fun why => ?_⟩
    rw [verdict_eq_stopped_iff, readDuration_eq_stopped_iff hfloat]
    constructor
    · rintro (⟨hv, rfl⟩ | ⟨hv, rfl⟩)
      · exact .noSeconds hduration hv
      · exact .endless hduration hv
    · rintro (⟨-, hv⟩ | ⟨-, hv⟩ | ⟨rfl, -⟩)
      · exact .inl ⟨hv, rfl⟩
      · exact .inr ⟨hv, rfl⟩
      · exact absurd hduration (by decide)

/-- Where the other settings can be read, the failures that are no list of issues are
those that are listed. -/
theorem load_escapes_iff {before : Fields} {environment₀ : List (String × String)} {file₀ : String}
    {s : Settings}
    (hvalid : load before environment₀ file₀ = .ok s) {name : String}
    (hname : name ∈ "super_roles" :: durationNames)
    {values : Fields} {environment : List (String × String)} {file : String}
    (hothers : ∀ n ∈ names, n ≠ name →
      supplied values environment file n = supplied before environment₀ file₀ n)
    (hv : supplied values environment file name = some v) (hfloat : ∀ x, v = .float x → x.Canonical)
    (why : Failure) :
    (load values environment file = .error why ∧ ∀ found, why ≠ .schema found) ↔
      Escapes name v why := by
  have hnames : name ∈ names :=
    (by decide : ∀ n ∈ "super_roles" :: durationNames, n ∈ names) name hname
  have hcheck := check_of_load hvalid
  obtain ⟨reading, hmem, hreading⟩ := exists_reading hname hfloat
  have hsame : ∀ n ∈ names, n ≠ name → (found (supplied values environment file)).get? n =
      (found (supplied before environment₀ file₀)).get? n := by
    intro n hn hne
    rw [get?_found _ hn, get?_found _ hn, hothers n hn hne]
  have hverdict := verdict_check hcheck hsame hmem ((get?_found _ hnames).trans hv)
  have hstopped : check (found (supplied values environment file)) = .stopped why ↔
      Escapes name v why := by
    rw [← verdict_eq_stopped_iff, hverdict, under_eq_stopped_iff, hreading]
  constructor
  · rintro ⟨herror, hwhy⟩
    exact hstopped.mp ((toExcept_eq_error_iff hwhy).mp herror)
  · intro hescapes
    exact ⟨(toExcept_eq_error_iff hescapes.ne_schema).mpr (hstopped.mpr hescapes),
      hescapes.ne_schema⟩

/-- A duration without end is neither read nor refused with issues. -/
theorem load_endless : ¬ ((∃ s, load [("decision_cache_ttl", .text "inf")] [] "" = .ok s) ∨
    ∃ found, load [("decision_cache_ttl", .text "inf")] [] "" = .error (.schema found)) := by
  have hload : load [("decision_cache_ttl", .text "inf")] [] "" = .error .range := by decide +kernel
  rw [hload]
  rintro (⟨s, h⟩ | ⟨found, h⟩) <;> cases h

/-- A number in place of roles, where all other settings are the standard ones. -/
theorem load_escapes_number :
    load [("super_roles", .int 5)] [] "" = .error (.type (some "Expected string or list")) ∧
    ∀ found, Failure.type (some "Expected string or list") ≠ .schema found := by
  have hname : Text.lower "super_roles" = "super_roles" := by decide +kernel
  have hothers : ∀ n ∈ names, n ≠ "super_roles" →
      supplied [("super_roles", .int 5)] [] "" n = supplied [] [] "" n := by
    intro n _ hne
    rw [supplied_cons, hname, if_neg hne.symm]
  have hv : supplied [("super_roles", .int 5)] [] "" "super_roles" = some (.int 5) := by
    rw [supplied_cons, hname, if_pos rfl]
  exact (load_escapes_iff (by decide +kernel : load [] [] "" = .ok standard) List.mem_cons_self
    hothers hv
    (fun x hx => by cases hx) _).mpr (.noNames rfl (.inr (.inl ⟨5, rfl⟩)))

end AccessControl.Settings
