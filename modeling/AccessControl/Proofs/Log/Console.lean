import AccessControl.Proofs.Log.Entries
import Mathlib

/-! # Where a line for people ends

A line for people takes over some texts as they are: the message, the names of the extras, and what
is a text among the level, the logger, the id that correlates entries and the extras
(`Entry.TakesOver`).  Anything else on the line is made of printed characters.  So the line is cut
in two where one of those texts ends a line, and only there (`consoleLine_breaks`); nothing is
written where the line would show a whole number that is too long, and whoever has a say in such a
text can add a whole line to the log (`consoleLine_forged`). -/

namespace AccessControl.Log

open Text (Basic EndsLine)

variable {c : Char}

/-! ### Parts of a line -/

section unprintable

variable (hc : Text.isPrintable c = false)
include hc

theorem not_mem_of_basic {cs : List Char} (h : Basic cs) : c ∉ cs := by
  intro hmem
  rw [(h c hmem).isPrintable] at hc
  cases hc

theorem Detail.mem_display_iff (d : Detail) :
    c ∈ d.display.toList ↔ ∃ s, d.text? = some s ∧ c ∈ s.toList := by
  cases d with
  | value v => exact Value.mem_display_iff hc v
  | duration d => exact iff_of_false (not_mem_of_basic hc d.basic_text) (by simp [text?])
  | other text counts => simp [display, text?]

theorem Detail.mem_shown_iff (d : Detail) :
    c ∈ d.shown.toList ↔ ∃ s, d.text? = some s ∧ c ∈ s.toList := by
  unfold shown
  split
  · exact iff_of_false (not_mem_of_basic hc (by decide)) (by simp [text?, Value.text?])
  · exact mem_display_iff hc d

theorem mem_levelName_iff {v level : Value} (h : levelName v = .ok level) :
    c ∈ level.display.toList ↔ ∃ s, v.text? = some s ∧ c ∈ s.toList := by
  rcases levelName_cases h with ⟨hv, name, rfl, hname⟩ | ⟨s, n, rfl, hs, rfl, -⟩ | rfl
  · exact iff_of_false (not_mem_of_basic hc hname) (by simp [hv])
  · refine iff_of_false (not_mem_of_basic hc (Text.basic_intText n)) ?_
    rintro ⟨t, ht, hmem⟩
    obtain rfl := Option.some.inj ht
    exact not_mem_of_basic hc hs hmem
  · have hword : c ∉ "Level ".toList := not_mem_of_basic hc (by decide)
    change c ∈ ("Level " ++ v.display).toList ↔ _
    rw [String.toList_append, List.mem_append, or_iff_right hword]
    exact Value.mem_display_iff hc v

theorem mem_paddedRight_iff (width : ℕ) (s : String) :
    c ∈ (Entry.paddedRight width s).toList ↔ c ∈ s.toList := by
  have hblank : c ∉ List.replicate (width - s.length) ' ' :=
    not_mem_of_basic hc (Text.basic_replicate (by decide) _)
  simp [Entry.paddedRight, hblank]

end unprintable

theorem mem_intercalate_iff (hblank : c ≠ ' ') (pieces : List String) :
    c ∈ (String.intercalate " " pieces).toList ↔ ∃ piece ∈ pieces, c ∈ piece.toList := by
  rw [String.toList_intercalate]
  induction pieces with
  | nil => simp
  | cons piece pieces ih =>
      cases pieces with
      | nil => simp
      | cons next pieces =>
          rw [List.map_cons, List.map_cons, List.intercalate_cons_cons, ← List.map_cons,
            List.mem_append, List.mem_append, ih, List.exists_mem_cons_iff]
          simp [hblank]

namespace Entry

variable {e : Entry} {level : Value} {time message : String}

/-! ### Extras by name -/

theorem perm_insertExtra (x : String × Detail) (extras : List (String × Detail)) :
    (insertExtra x extras).Perm (x :: extras) := by
  induction extras with
  | nil => exact .refl _
  | cons y ys ih =>
      unfold insertExtra
      split
      · exact .refl _
      · exact (ih.cons y).trans (.swap x y ys)

theorem perm_byName (extras : List (String × Detail)) : (byName extras).Perm extras := by
  induction extras with
  | nil => exact .refl _
  | cons x xs ih => exact (perm_insertExtra x _).trans (ih.cons x)

theorem mem_listed_iff {x : String × Detail} : x ∈ e.listed ↔ x ∈ e.extras ∧ isListed x.1 = true :=
  List.mem_filter

/-! ### Lines -/

/-- The character stands in a text that a line for people takes over as it is. -/
inductive TakesOver (e : Entry) (message : String) (c : Char) : Prop
  | message (hmem : c ∈ message.toList)
  | level {s : String} (hs : e.level.text? = some s) (hmem : c ∈ s.toList)
  | logger {s : String} (hs : e.logger.text? = some s) (hmem : c ∈ s.toList)
  | correlation {s : String} (hs : e.correlation.text? = some s) (hmem : c ∈ s.toList)
  | name {name : String} {d : Detail} (hd : (name, d) ∈ e.extras) (hlisted : isListed name = true)
      (hmem : c ∈ name.toList)
  | extra {name s : String} {d : Detail} (hd : (name, d) ∈ e.extras)
      (hlisted : isListed name = true) (hs : d.text? = some s) (hmem : c ∈ s.toList)

/-- The line for people up to the extras. -/
def consoleStart (e : Entry) (level : Value) (time message : String) : String :=
  time ++ " " ++ paddedRight 5 level.display ++ " " ++ e.logger.display ++ " [cid=" ++
    e.correlation.display ++ "] " ++ message

/-- The extras as a line for people shows them. -/
def consoleExtras (e : Entry) : List String :=
  (byName e.listed).map fun x => x.1 ++ "=" ++ x.2.shown

/-- The line for people of an entry without an error. -/
def consoleText (e : Entry) (level : Value) (time message : String) : String :=
  if e.consoleExtras.isEmpty then e.consoleStart level time message
  else e.consoleStart level time message ++ " " ++ String.intercalate " " e.consoleExtras

theorem consoleLine_eq (h : e.Shows level time message) (herror : e.error = none)
    (hs : e.message = .ok message) : e.consoleLine =
      if e.isOverlong then .error .overlong else .ok (e.consoleText level time message) := by
  unfold consoleLine
  rw [h.clash_eq, h.level, h.time, hs, herror]
  rfl

/-- A line for people shows the whole number, be it with the logger, the id that
correlates entries or an extra. -/
inductive Displays (e : Entry) (n : ℤ) : Prop
  | logger (hn : e.logger.Holds n)
  | correlation (hn : e.correlation.toValue.Holds n)
  | extra {name : String} {d : Detail} (hd : (name, d) ∈ e.extras) (hlisted : isListed name = true)
      (hn : d.toValue.Holds n)

theorem isOverlong_iff : e.isOverlong = true ↔ ∃ n, e.Displays n ∧ ¬Text.Short n := by
  simp only [isOverlong, Bool.or_eq_true, List.any_eq_true, Value.isOverlong_iff, mem_listed_iff]
  constructor
  · rintro ((⟨n, hn, hlong⟩ | ⟨n, hn, hlong⟩) | ⟨x, ⟨hd, hlisted⟩, n, hn, hlong⟩)
    · exact ⟨n, .logger hn, hlong⟩
    · exact ⟨n, .correlation hn, hlong⟩
    · exact ⟨n, .extra hd hlisted hn, hlong⟩
  · rintro ⟨n, hn | hn | ⟨hd, hlisted, hn⟩, hlong⟩
    · exact .inl (.inl ⟨n, hn, hlong⟩)
    · exact .inl (.inr ⟨n, hn, hlong⟩)
    · exact .inr ⟨_, ⟨hd, hlisted⟩, n, hn, hlong⟩

theorem mem_consoleStart_iff (hc : Text.isPrintable c = false) (h : e.Shows level time message) :
    c ∈ (e.consoleStart level time message).toList ↔ c ∈ message.toList ∨
      (∃ s, e.level.text? = some s ∧ c ∈ s.toList) ∨ (∃ s, e.logger.text? = some s ∧ c ∈ s.toList) ∨
      ∃ s, e.correlation.text? = some s ∧ c ∈ s.toList := by
  have htime : c ∉ time.toList := not_mem_of_basic hc (basic_time h.time)
  have hblank : c ∉ " ".toList := not_mem_of_basic hc (by decide)
  have hopen : c ∉ " [cid=".toList := not_mem_of_basic hc (by decide)
  have hclose : c ∉ "] ".toList := not_mem_of_basic hc (by decide)
  rw [← mem_levelName_iff hc h.level, ← Value.mem_display_iff hc, ← Detail.mem_display_iff hc,
    ← mem_paddedRight_iff hc 5 level.display]
  simp only [consoleStart, String.toList_append, List.mem_append, htime, hblank, hopen, hclose,
    false_or, or_false]
  tauto

theorem exists_mem_consoleExtras_iff (hc : Text.isPrintable c = false) :
    (∃ piece ∈ e.consoleExtras, c ∈ piece.toList) ↔ ∃ name d, (name, d) ∈ e.extras ∧
      isListed name = true ∧
      (c ∈ name.toList ∨ ∃ s, d.text? = some s ∧ c ∈ s.toList) := by
  have hequals : c ∉ "=".toList := not_mem_of_basic hc (by decide)
  have hpiece : ∀ x : String × Detail, c ∈ (x.1 ++ "=" ++ x.2.shown).toList ↔
      c ∈ x.1.toList ∨ ∃ s, x.2.text? = some s ∧ c ∈ s.toList := by
    intro x
    rw [← Detail.mem_shown_iff hc, String.toList_append, String.toList_append, List.mem_append,
      List.mem_append, or_iff_left hequals]
  have hmap : (∃ piece ∈ e.consoleExtras, c ∈ piece.toList) ↔
      ∃ x ∈ byName e.listed, c ∈ (x.1 ++ "=" ++ x.2.shown).toList := by simp [consoleExtras]
  simp only [hmap, hpiece, (perm_byName e.listed).mem_iff, mem_listed_iff, Prod.exists, and_assoc]

/-- A line for people holds a character without a printed form where a text that it takes over
does. -/
theorem mem_consoleText_iff (hc : Text.isPrintable c = false) (h : e.Shows level time message) :
    c ∈ (e.consoleText level time message).toList ↔ e.TakesOver message c := by
  have hblank : c ≠ ' ' := by
    rintro rfl
    exact absurd hc (by decide)
  have hparts : c ∈ (e.consoleText level time message).toList ↔
      c ∈ (e.consoleStart level time message).toList ∨
        ∃ piece ∈ e.consoleExtras, c ∈ piece.toList := by
    unfold consoleText
    split
    · next hempty => simp [List.isEmpty_iff.mp hempty]
    · rw [String.toList_append, String.toList_append, List.mem_append, List.mem_append,
        mem_intercalate_iff hblank]
      simp [hblank]
  rw [hparts, mem_consoleStart_iff hc h, exists_mem_consoleExtras_iff hc]
  constructor
  · rintro ((hmem | ⟨s, hs, hmem⟩ | ⟨s, hs, hmem⟩ | ⟨s, hs, hmem⟩) | ⟨name, d, hd, hlisted,
      hmem | ⟨s, hs, hmem⟩⟩)
    · exact .message hmem
    · exact .level hs hmem
    · exact .logger hs hmem
    · exact .correlation hs hmem
    · exact .name hd hlisted hmem
    · exact .extra hd hlisted hs hmem
  · rintro (hmem | ⟨hs, hmem⟩ | ⟨hs, hmem⟩ | ⟨hs, hmem⟩ | ⟨hd, hlisted, hmem⟩ | ⟨hd, hlisted, hs,
      hmem⟩)
    · exact .inl (.inl hmem)
    · exact .inl (.inr (.inl ⟨_, hs, hmem⟩))
    · exact .inl (.inr (.inr (.inl ⟨_, hs, hmem⟩)))
    · exact .inl (.inr (.inr (.inr ⟨_, hs, hmem⟩)))
    · exact .inr ⟨_, _, hd, hlisted, .inl hmem⟩
    · exact .inr ⟨_, _, hd, hlisted, .inr ⟨_, hs, hmem⟩⟩

/-- An entry without an error is written, unless it is silenced or shows a whole number whose
numeral is too long, and the line for people ends early where a text that it takes over ends a
line, and only there. -/
theorem consoleLine_breaks (h : e.Shows level time message) (herror : e.error = none) :
    e.Silenced ∧ e.consoleLine = .error (.type none) ∨
      ¬e.Silenced ∧ (∃ n, e.Displays n ∧ ¬Text.Short n) ∧ e.consoleLine = .error .overlong ∨
      ¬e.Silenced ∧ (∀ n, e.Displays n → Text.Short n) ∧ ∃ line, e.consoleLine = .ok line ∧
        ∀ c, EndsLine c → (c ∈ line.toList ↔ e.TakesOver message c) := by
  rcases h.message_eq with ⟨hsilenced, hs⟩ | ⟨hsilenced, hs⟩
  · refine .inl ⟨hsilenced, ?_⟩
    unfold consoleLine
    rw [h.clash_eq, h.level, hs]
    rfl
  · have hline := consoleLine_eq h herror hs
    by_cases hlong : e.isOverlong = true
    · exact .inr (.inl ⟨hsilenced, isOverlong_iff.mp hlong, hline.trans (if_pos hlong)⟩)
    · have hshort : ∀ n, e.Displays n → Text.Short n := fun n hn =>
        not_not.mp fun hnot => hlong (isOverlong_iff.mpr ⟨n, hn, hnot⟩)
      refine .inr (.inr ⟨hsilenced, hshort, _, hline.trans (if_neg hlong), fun c hc => ?_⟩)
      exact mem_consoleText_iff (Text.isPrintable_of_endsLine hc) h

/-- The note of a decision about a path, which is all that is known of the request. -/
def decision (authorized : Bool) (reason path : String) : Entry :=
  Record.entry ⟨.debug, .authorization, "authz.decision",
    context [("service", .text "shop"), ("rule_id", .null), ("user_id", .null),
      ("target", .text ("path:" ++ path)),
      ("authorized", .bool authorized), ("granted_by", .text reason)]⟩ 1772446447 118 []

/-- A path that ends a line ends the line of the decision, which has no other end. -/
theorem consoleLine_breaks_path :
    let e := decision false "no-rule" "/orders\n"
    e.Shows (.text "DEBUG") "2026-03-02T10:14:07.118Z" "authz.decision" ∧ e.error = none ∧
      ∃ line, e.consoleLine = .ok line ∧ '\n' ∈ line.toList ∧ '\r' ∉ line.toList := by
  intro e
  have h : e.Shows (.text "DEBUG") "2026-03-02T10:14:07.118Z" "authz.decision" :=
    Record.shows_entry (by decide +kernel) (by decide +kernel)
  refine ⟨h, rfl, ?_⟩
  have hsilenced : ¬e.Silenced := by decide +kernel
  have hlong : ¬e.isOverlong = true := by decide +kernel
  rcases consoleLine_breaks h rfl with ⟨hs, -⟩ | ⟨-, hs, -⟩ | ⟨-, -, line, hline, hends⟩
  · exact absurd hs hsilenced
  · exact absurd (isOverlong_iff.mpr hs) hlong
  refine ⟨line, hline, (hends '\n' (by decide)).mpr ?_, fun hmem => ?_⟩
  · have htarget : ("target", Detail.value (.text "path:/orders\n")) ∈ e.extras :=
      List.mem_of_getElem? (i := 1) rfl
    exact .extra htarget (by decide +kernel) rfl (by decide)
  · have hwhole : e.consoleLine =
        .ok ("2026-03-02T10:14:07.118Z DEBUG authz_core.features.authorization.service [cid=-] " ++
          "authz.decision authorized=False granted_by=no-rule service=shop " ++
          "target=path:/orders\n") := by
      decide +kernel
    obtain rfl := Except.ok.inj (hline.symm.trans hwhole)
    exact absurd hmem (by decide +kernel)

/-- A path that holds a line of its own: the line of a decision that was never made. -/
theorem consoleLine_forged :
    let start :=
      "2026-03-02T10:14:07.118Z DEBUG authz_core.features.authorization.service [cid=-] " ++
        "authz.decision "
    let forged := start ++ "authorized=True granted_by=super-role service=shop target=path:/orders"
    let e := decision false "no-rule" ("/x\n" ++ forged)
    (decision true "super-role" "/orders").consoleLine = .ok forged ∧
      e.consoleLine =
        .ok (start ++ "authorized=False granted_by=no-rule service=shop target=path:/x" ++ "\n" ++
          forged) ∧
      ¬ ∀ line, e.consoleLine = .ok line → ∀ c, EndsLine c → c ∉ line.toList := by
  intro start forged e
  have hline : e.consoleLine =
      .ok (start ++ "authorized=False granted_by=no-rule service=shop target=path:/x" ++ "\n" ++
        forged) := by
    decide +kernel
  refine ⟨by decide +kernel, hline, fun hclaim => ?_⟩
  exact hclaim _ hline '\n' (by decide) (by simp)

end Entry
end AccessControl.Log
