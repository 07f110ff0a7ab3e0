import AccessControl.Proofs.Database.ActiveRules
import AccessControl.Proofs.Database.Search
import Mathlib

/-! # Lists of stored rules

Rules that are listed stand by service, then by priority from high to low, and then by number
(`RuleRow.ListedBefore`).  Each rule that is asked for is listed once: those of a service, whose
name is compared up to the case of ASCII letters, and those in which a search text is found
(`Tables.lists_listRules`). -/

namespace AccessControl
namespace Database

/-! ### Order -/

/-- The first priority is higher.  A priority is a number, but rows from elsewhere may have a text,
which is higher than any number. -/
inductive Outranks : Value → Value → Prop
  | numbers {m n : ℤ} (h : n < m) : Outranks (.int m) (.int n)
  | textAbove (s : String) (n : ℤ) : Outranks (.text s) (.int n)
  | texts {s t : String} (h : t < s) : Outranks (.text s) (.text t)

theorem Outranks.trans {u v w : Value} (h : Outranks u v) (h' : Outranks v w) : Outranks u w := by
  cases h with
  | numbers h =>
      cases h' with
      | numbers h' => exact .numbers (h'.trans h)
  | textAbove s n =>
      cases h' with
      | numbers h' => exact .textAbove s _
  | texts h =>
      cases h' with
      | textAbove t n => exact .textAbove _ n
      | texts h' => exact .texts (h'.trans h)

theorem Outranks.irrefl (v : Value) : ¬Outranks v v := by
  rintro (h | h | h) <;> exact lt_irrefl _ h

/-- A number or a text, as it stands in the column for priorities. -/
def IsPriority (v : Value) : Prop := (∃ n : ℤ, v = .int n) ∨ ∃ s : String, v = .text s

theorem isLower_iff {v w : Value} (hv : IsPriority v) (hw : IsPriority w) :
    isLower w v = true ↔ Outranks v w := by
  rcases hv with ⟨m, rfl⟩ | ⟨s, rfl⟩ <;> rcases hw with ⟨n, rfl⟩ | ⟨t, rfl⟩
  · rw [RuleRow.isLower_int, decide_eq_true_iff]
    exact ⟨.numbers, fun | .numbers h => h⟩
  · exact ⟨fun h => (by cases h), fun h => (by cases h)⟩
  · exact ⟨fun _ => .textAbove s n, fun _ => rfl⟩
  · rw [isLower, decide_eq_true_iff]
    exact ⟨.texts, fun | .texts h => h⟩

theorem outranks_or_eq {v w : Value} (hv : IsPriority v) (hw : IsPriority w) :
    Outranks v w ∨ v = w ∨ Outranks w v := by
  rcases hv with ⟨m, rfl⟩ | ⟨s, rfl⟩ <;> rcases hw with ⟨n, rfl⟩ | ⟨t, rfl⟩
  · rcases lt_trichotomy n m with h | rfl | h
    · exact .inl (.numbers h)
    · exact .inr (.inl rfl)
    · exact .inr (.inr (.numbers h))
  · exact .inr (.inr (.textAbove t m))
  · exact .inl (.textAbove s n)
  · rcases lt_trichotomy t s with h | rfl | h
    · exact .inl (.texts h)
    · exact .inr (.inl rfl)
    · exact .inr (.inr (.texts h))

namespace RuleRow

/-- The first rule is listed first: by service, by priority from high to low, by number. -/
def ListedBefore (r s : RuleRow) : Prop :=
  r.service < s.service ∨ (r.service = s.service ∧
    (Outranks r.priority s.priority ∨ (r.priority = s.priority ∧ r.id < s.id)))

instance : IsTrans RuleRow ListedBefore where
  trans r s u h h' := by
    rcases h with hlt | ⟨heq, hrs⟩
    · rcases h' with hlt' | ⟨heq', -⟩
      · exact .inl (hlt.trans hlt')
      · exact .inl (heq' ▸ hlt)
    · rcases h' with hlt' | ⟨heq', hsu⟩
      · exact .inl (heq ▸ hlt')
      · refine .inr ⟨heq.trans heq', ?_⟩
        rcases hrs with hrs | ⟨hpriority, hid⟩
        · rcases hsu with hsu | ⟨hpriority', -⟩
          · exact .inl (hrs.trans hsu)
          · exact .inl (hpriority' ▸ hrs)
        · rcases hsu with hsu | ⟨hpriority', hid'⟩
          · exact .inl (hpriority ▸ hsu)
          · exact .inr ⟨hpriority.trans hpriority', hid.trans hid'⟩

theorem ListedBefore.irrefl (r : RuleRow) : ¬r.ListedBefore r := by
  rintro (hlt | ⟨-, hpriority | ⟨-, hid⟩⟩)
  · exact lt_irrefl _ hlt
  · exact hpriority.irrefl
  · exact lt_irrefl _ hid

theorem leads_iff {r s : RuleRow} (hr : IsPriority r.priority) (hs : IsPriority s.priority) :
    Tables.leads r s = true ↔
    Outranks r.priority s.priority ∨ (r.priority = s.priority ∧ r.id ≤ s.id) := by
  have hleads : Tables.leads r s = true ↔
      Outranks r.priority s.priority ∨ (¬Outranks s.priority r.priority ∧ r.id ≤ s.id) := by
    rw [← isLower_iff hr hs, ← isLower_iff hs hr]
    simp [Tables.leads]
  rw [hleads]
  rcases outranks_or_eq hr hs with h | h | h
  · simp [h]
  · simp [h, Outranks.irrefl]
  · have hne : r.priority ≠ s.priority := fun heq => Outranks.irrefl s.priority (heq ▸ h)
    simp [h, hne]

/-- Of two rules with different numbers one is listed before the other, in the way
in which they compare. -/
theorem listed_cases {r s : RuleRow} (hr : IsPriority r.priority) (hs : IsPriority s.priority)
    (hne : r.id ≠ s.id) :
    if (r.service < s.service || (r.service == s.service && Tables.leads r s)) = true
      then r.ListedBefore s else s.ListedBefore r := by
  have hleads := leads_iff hr hs
  rcases lt_trichotomy r.service s.service with hlt | heq | hgt
  · rw [if_pos (by simp [hlt])]
    exact .inl hlt
  · split
    · next hfirst =>
        have hrs := hleads.mp (by simpa [heq] using hfirst)
        exact .inr ⟨heq, hrs.imp_right fun ⟨hsame, hid⟩ => ⟨hsame, lt_of_le_of_ne hid hne⟩⟩
    · next hsecond =>
        have hsr := mt hleads.mpr (by simpa [heq] using hsecond)
        obtain ⟨hlow, hid⟩ := not_or.mp hsr
        refine .inr ⟨heq.symm, ?_⟩
        rcases outranks_or_eq hr hs with h | h | h
        · exact absurd h hlow
        · exact .inr ⟨h.symm, lt_of_not_ge fun hle => hid ⟨h, hle⟩⟩
        · exact .inl h
  · rw [if_neg (by simp [hgt.not_gt, hgt.ne'])]
    exact .inl hgt

/-- The texts of a rule in which a search text is looked for. -/
def searched (r : RuleRow) : List String := r.service :: (r.pattern.toList ++ r.routeName.toList)

end RuleRow

namespace Tables

theorem mentions_iff (term : String) (r : RuleRow) :
    mentions term r = true ↔ ∃ text ∈ r.searched, Finds term text := by
  have hcolumn : ∀ column : Option String, column.any (holds term) = true ↔
      ∃ text ∈ column.toList, Finds term text := by
    intro column
    cases column <;> simp [holds_iff]
  simp [mentions, RuleRow.searched, holds_iff, hcolumn, or_assoc, or_and_right, exists_or]

theorem listed_eq (rows : List RuleRow) : rows.foldr placeRule [] =
    rows.insertionSort fun r s => (r.service < s.service || (r.service == s.service && leads r s)) =
      true := by
  have hplace : placeRule = List.orderedInsert fun r s =>
      (r.service < s.service || (r.service == s.service && leads r s)) = true := by
    funext r rows
    induction rows with
    | nil => rfl
    | cons s rows ih => rw [placeRule, List.orderedInsert_cons, ih]
  rw [hplace, List.insertionSort]

/-- The rows are the stored rules of some kind, each once, by service, by priority from high
to low and by number. -/
structure Lists (t : Tables) (P : RuleRow → Prop) (rows : List RuleRow) : Prop where
  mem_iff : ∀ row, row ∈ rows ↔ row ∈ t.rules ∧ P row
  nodup : rows.Nodup
  ordered : rows.Pairwise RuleRow.ListedBefore

theorem Lists.congr {t : Tables} {P P' : RuleRow → Prop} {rows : List RuleRow} (h : t.Lists P rows)
    (hsame : ∀ row ∈ t.rules, P row ↔ P' row) : t.Lists P' rows where
  mem_iff row := (h.mem_iff row).trans (and_congr_right fun hrow => hsame row hrow)
  nodup := h.nodup
  ordered := h.ordered

theorem lists_listRules {t : Tables} (hkeyed : Table.rules.Keyed t.rules)
    (hpriorities : ∀ r ∈ t.rules, IsPriority r.priority) (service term : Option String) :
    t.Lists (fun row => (∀ lowered ∈ service, Text.asciiLower row.service = lowered) ∧
      ∀ text ∈ term, ∃ found ∈ row.searched, Finds text found) (t.listRules service term) := by
  have hordered : (t.listRules service term).Pairwise RuleRow.ListedBefore := by
    rw [listRules, listed_eq]
    refine pairwise_insertionSort
      ((List.pairwise_map.mp (hkeyed.filter _)).imp_of_mem fun {r s} hr hs hne => ?_)
    exact RuleRow.listed_cases (hpriorities r (List.mem_filter.mp hr).1)
      (hpriorities s (List.mem_filter.mp hs).1) hne
  refine ⟨fun row => ?_, hordered.imp fun {r s} h => ?_, hordered⟩
  · rw [listRules, listed_eq, List.mem_insertionSort, List.mem_filter]
    cases service <;> cases term <;> simp [ofService, mentions_iff]
  · rintro rfl
    exact h.irrefl

end Tables
end Database
end AccessControl
