import AccessControl.Log.Line
import AccessControl.Proofs.Rule.Sound
import AccessControl.Proofs.Value.Display
import Mathlib

/-! # The parts of an entry

A line takes over some parts of an entry and makes others: the name of the level, the time and the
message (`Entry.Shows`).  The time is written in the printed characters of ASCII
(`Entry.basic_time`), and a level is a known name, a numeral or the word for any other one
(`levelName_cases`).  An extra that takes the place of the message leaves the entry without one
(`Entry.Shows.message_eq`). -/

namespace AccessControl.Log

open Text (Basic basic_append)

/-! ### Levels -/

theorem namedLevels_spec {n : ℤ} {name : String} (h : (n, name) ∈ namedLevels) :
    Basic name.toList ∧ Text.Short n := by
  have hall : namedLevels.all fun x => decide (Basic x.2.toList ∧ Database.fits x.1 = true) := by
    decide
  obtain ⟨hname, hn⟩ := of_decide_eq_true (List.all_eq_true.mp hall _ h)
  exact ⟨hname, Database.short_of_fits hn⟩

/-- A level with a name is shown by it, a name by its number, and anything else as a level of its
own. -/
theorem levelName_cases {v level : Value} (h : levelName v = .ok level) :
    (v.text? = none ∧ ∃ name, level = .text name ∧ Basic name.toList) ∨
      (∃ s n, v = .text s ∧ Basic s.toList ∧ level = .int n ∧ Text.Short n) ∨
      level = .text ("Level " ++ v.display) := by
  unfold levelName at h
  split at h
  · next name hname =>
      obtain rfl := Except.ok.inj h
      obtain ⟨n, hn, hlookup⟩ := Option.bind_eq_some_iff.mp hname
      obtain ⟨front, back, hlevels, -⟩ := List.lookup_eq_some_iff.mp hlookup
      have hmem : (n, name) ∈ namedLevels := by simp [hlevels]
      refine .inl ⟨?_, name, rfl, (namedLevels_spec hmem).1⟩
      cases v with
      | text s => cases hn
      | _ => rfl
  · split at h
    · cases h
    · cases h
    · obtain rfl := Except.ok.inj h
      have hmem : (30, "WARNING") ∈ namedLevels := by decide
      exact .inr (.inl ⟨"WARN", 30, rfl, by decide, rfl, (namedLevels_spec hmem).2⟩)
    · obtain rfl := Except.ok.inj h
      have hmem : (50, "CRITICAL") ∈ namedLevels := by decide
      exact .inr (.inl ⟨"FATAL", 50, rfl, by decide, rfl, (namedLevels_spec hmem).2⟩)
    · split at h
      · next n name hfind =>
          obtain rfl := Except.ok.inj h
          obtain ⟨s, hs, hfound⟩ := Option.bind_eq_some_iff.mp hfind
          obtain rfl : name = s := by simpa using List.find?_some hfound
          obtain ⟨hname, hn⟩ := namedLevels_spec (List.mem_of_find?_eq_some hfound)
          refine .inr (.inl ⟨name, n, ?_, hname, rfl, hn⟩)
          cases v with
          | text t => rw [Option.some.inj hs]
          | _ => cases hs
      · split at h
        · cases h
        · obtain rfl := Except.ok.inj h
          exact .inr (.inr rfl)

/-! ### Extras -/

/-- The text that an extra stands for as it is. -/
def Detail.text? : Detail → Option String
  | .value v => v.text?
  | .duration _ => none
  | .other text _ => some text

namespace Entry

variable {e : Entry} {level : Value} {time message : String}

/-- An extra takes the place of the message. -/
def Silenced (e : Entry) : Prop := ∃ x ∈ e.extras, x.1 = messageName

instance (e : Entry) : Decidable e.Silenced :=
  inferInstanceAs (Decidable (∃ x ∈ e.extras, x.1 = messageName))

/-- The entry can be written, unless it is silenced: its extras are named like no part of it, and
the level, the time and the message can be made. -/
structure Shows (e : Entry) (level : Value) (time message : String) : Prop where
  names : ∀ x ∈ e.extras, x.1 ∉ partNames ++ madeNames
  level : levelName e.level = .ok level
  time : e.time = .ok time
  message : fill e.template e.arguments = .ok message

theorem Shows.clash_eq (h : e.Shows level time message) : e.clash = none := by
  rw [clash, Option.map_eq_none_iff, List.find?_eq_none]
  intro x hx
  simpa using h.names x hx

/-- The message is there unless an extra took its place. -/
theorem Shows.message_eq (h : e.Shows level time message) :
    e.Silenced ∧ e.message = .error (.type none) ∨ ¬e.Silenced ∧ e.message = .ok message := by
  have hlookup : (e.extras.lookup messageName).isSome = true ↔ e.Silenced := by
    rw [List.lookup_isSome_iff]
    exact exists_congr fun x => and_congr_right fun _ => by rw [beq_iff_eq, eq_comm]
  by_cases hs : e.Silenced
  · exact .inl ⟨hs, if_pos (hlookup.mpr hs)⟩
  · exact .inr ⟨hs, (if_neg (hs ∘ hlookup.mp)).trans h.message⟩

/-! ### Times -/

theorem basic_millisText (millis : ℤ) : Basic (millisText millis).toList := by
  unfold millisText
  split
  · rw [String.toList_append, basic_append]
    exact ⟨by decide, Duration.basic_padded 2 _⟩
  · exact Duration.basic_padded 3 _

theorem basic_time (h : e.time = .ok time) : Basic time.toList := by
  obtain ⟨moment, -, h⟩ := bind_eq_ok h
  obtain ⟨millis, -, h⟩ := bind_eq_ok h
  split at h
  · cases h
  obtain rfl := Except.ok.inj h
  have hhyphen : Basic "-".toList := by decide
  have hcolon : Basic ":".toList := by decide
  have hyear := Text.basic_intText moment.date.year
  have hmillis := basic_millisText millis
  have htwo := Duration.basic_twoDigits
  simp only [Moment.monthAndDayText, Moment.clockText, String.toList_append, basic_append]
  simp only [hhyphen, hcolon, hyear, hmillis, htwo, true_and, and_true]
  decide

end Entry

/-! ### Records -/

/-- The number of a level. -/
def Level.number : Level → ℤ
  | debug => 10
  | info => 20
  | warning => 30

/-- The entry of a record at a time, with more that is known of it, when no id is bound. -/
def Record.entry (r : Record) (seconds millis : ℤ) (more : List (String × Detail)) : Entry where
  logger := .text r.channel.name
  level := .int r.level.number
  template := r.event
  arguments := []
  seconds := .int seconds
  millis := .int millis
  extras := r.details.map (fun f => (f.1, .value f.2)) ++ more
  error := none
  bound := .null

theorem Record.shows_entry {r : Record} {seconds millis : ℤ} {more : List (String × Detail)}
    {time : String}
    (hnames : ∀ x ∈ (r.entry seconds millis more).extras, x.1 ∉ partNames ++ madeNames)
    (htime : (r.entry seconds millis more).time = .ok time) :
    (r.entry seconds millis more).Shows (.text r.level.name) time r.event where
  names := hnames
  level := by
    change levelName (.int r.level.number) = _
    cases r.level <;> rfl
  time := htime
  message := rfl

end AccessControl.Log
