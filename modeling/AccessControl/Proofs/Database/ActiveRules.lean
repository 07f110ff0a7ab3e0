import AccessControl.Proofs.Database.Rows
import AccessControl.Proofs.Rule.Sound
import Mathlib

/-! # The list of active rules

The active rules of a service for a method stand by priority from high to low, and then by number
(`RuleRow.Precedes`). `Tables.activeRules` puts each of them in its place, which is an insertion
sort (`pairwise_insertionSort`), so its list has all of them, each once, in this order
(`Tables.listsActive_activeRules`), and it is the only such list (`Tables.ListsActive.unique`). -/

namespace AccessControl
namespace Database

/-! ### Insertion -/

section insertion

variable {α : Type} {le R : α → α → Prop} [DecidableRel le] [IsTrans α R]

theorem pairwise_orderedInsert {a : α} {xs : List α}
    (ha : ∀ b ∈ xs, if le a b then R a b else R b a)
    (h : xs.Pairwise R) : (xs.orderedInsert le a).Pairwise R := by
  induction xs with
  | nil => exact List.pairwise_singleton R a
  | cons b xs ih =>
      obtain ⟨hb, hxs⟩ := List.pairwise_cons.mp h
      obtain ⟨hab, hrest⟩ := List.forall_mem_cons.mp ha
      rw [List.orderedInsert_cons]
      split
      · next hle =>
          rw [if_pos hle] at hab
          exact List.pairwise_cons.mpr
            ⟨List.forall_mem_cons.mpr ⟨hab, fun c hc => Trans.trans hab (hb c hc)⟩, h⟩
      · next hle =>
          rw [if_neg hle] at hab
          refine List.pairwise_cons.mpr ⟨fun c hc => ?_, ih hrest hxs⟩
          rcases (List.mem_orderedInsert le).mp hc with rfl | hc
          · exact hab
          · exact hb c hc

/-- A sorted list is in the order of a relation that holds, between any two members, in the way
in which they compare. -/
theorem pairwise_insertionSort {xs : List α}
    (h : xs.Pairwise fun a b => if le a b then R a b else R b a) :
    (xs.insertionSort le).Pairwise R := by
  induction h with
  | nil => exact .nil
  | cons ha _ ih =>
      rw [List.insertionSort_cons]
      exact pairwise_orderedInsert (fun b hb => ha b ((List.mem_insertionSort le).mp hb)) ih

end insertion

/-! ### Order -/

/-- The first rule has the higher priority, or the same priority and the lower number. -/
def RuleRow.Precedes (r s : RuleRow) : Prop :=
  ∃ p q : ℤ, r.priority = .int p ∧ s.priority = .int q ∧ (q < p ∨ (q = p ∧ r.id < s.id))

namespace RuleRow

theorem Precedes.trans {r s u : RuleRow} (h : r.Precedes s) (h' : s.Precedes u) : r.Precedes u := by
  obtain ⟨p, q, hp, hq, hlt⟩ := h
  obtain ⟨q', o, hq', ho, hlt'⟩ := h'
  obtain rfl : q = q' := by simpa [hq] using hq'
  exact ⟨p, o, hp, ho, by omega⟩

instance : IsTrans RuleRow RuleRow.Precedes := ⟨fun _ _ _ => Precedes.trans⟩

theorem Precedes.irrefl (r : RuleRow) : ¬ r.Precedes r := by
  rintro ⟨p, q, hp, hq, hlt⟩
  obtain rfl : p = q := by simpa [hp] using hq
  omega

theorem isLower_int (p q : ℤ) : isLower (.int p) (.int q) = decide (p < q) := by
  have h : isLower (.int p) (.int q) = (some (compare (p * 1) (q * 1)) == some .lt) := rfl
  rw [h, mul_one, mul_one]
  by_cases hlt : p < q
  · simp [hlt, compare_lt_iff_lt.mpr hlt]
  · have hne : compare p q ≠ .lt := fun heq => hlt (compare_lt_iff_lt.mp heq)
    simp [hlt, hne]

theorem leads_cases {r s : RuleRow} (hr : ∃ p : ℤ, r.priority = .int p)
    (hs : ∃ q : ℤ, s.priority = .int q) (hne : r.id ≠ s.id) :
    if Tables.leads r s = true then r.Precedes s else s.Precedes r := by
  obtain ⟨p, hp⟩ := hr
  obtain ⟨q, hq⟩ := hs
  have hleads : Tables.leads r s = true ↔ q < p ∨ (q ≤ p ∧ r.id ≤ s.id) := by
    simp [Tables.leads, hp, hq, isLower_int]
  split
  · next h => exact ⟨p, q, hp, hq, by have := hleads.mp h; omega⟩
  · next h => exact ⟨q, p, hq, hp, by have := mt hleads.mpr h; omega⟩

end RuleRow

namespace Tables

/-! ### Placing -/

theorem byPriority_eq (rows : List RuleRow) :
    rows.foldr placeByPriority [] = rows.insertionSort fun r s => leads r s = true := by
  have hplace : placeByPriority = List.orderedInsert fun r s => leads r s = true := by
    funext r rows
    induction rows with
    | nil => rfl
    | cons s rows ih => rw [placeByPriority, List.orderedInsert_cons, ih]
  rw [hplace, List.insertionSort]

theorem perm_byPriority (rows : List RuleRow) : (rows.foldr placeByPriority []).Perm rows := by
  rw [byPriority_eq]
  exact List.perm_insertionSort _ rows

theorem pairwise_byPriority {rows : List RuleRow} (hkeyed : Table.rules.Keyed rows)
    (hpriorities : ∀ r ∈ rows, ∃ p : ℤ, r.priority = .int p) :
    (rows.foldr placeByPriority []).Pairwise RuleRow.Precedes := by
  rw [byPriority_eq]
  exact pairwise_insertionSort ((List.pairwise_map.mp hkeyed).imp_of_mem fun {r s} hr hs hne =>
    RuleRow.leads_cases (hpriorities r hr) (hpriorities s hs) hne)

/-! ### Active rules -/

/-- The rows are the active rules of a service for a method, or for any method, each once, by
priority from high to low and then by number. -/
structure ListsActive (t : Tables) (service method : String) (rows : List RuleRow) : Prop where
  mem_iff : ∀ row, row ∈ rows ↔ row ∈ t.rules ∧ row.isActive = true ∧
      Text.asciiLower row.service = service ∧
    (row.method = method ∨ row.method = anyMethod)
  nodup : rows.Nodup
  ordered : rows.Pairwise RuleRow.Precedes

theorem listsActive_activeRules {t : Tables} (hkeyed : Table.rules.Keyed t.rules)
    (hsound : ∀ r ∈ t.rules, r.Sound) (service method : String) :
    t.ListsActive service method (t.activeRules service method) := by
  have hordered := pairwise_byPriority (hkeyed.filter fun r =>
    ofService service r && r.isActive && (r.method == method || r.method == anyMethod))
    fun r hr => (hsound r (List.mem_filter.mp hr).1).priority.imp fun _ => And.left
  refine ⟨fun row => ?_, hordered.imp fun {r s} h => ?_, hordered⟩
  · rw [activeRules, (perm_byPriority _).mem_iff, List.mem_filter]
    simp only [ofService, Bool.and_eq_true, Bool.or_eq_true, beq_iff_eq]
    tauto
  · rintro rfl
    exact h.irrefl

/-- There is no other list of the active rules. -/
theorem ListsActive.unique {t : Tables} {service method : String} {rows rows' : List RuleRow}
    (h : t.ListsActive service method rows) (h' : t.ListsActive service method rows') :
    rows = rows' := by
  have hirrefl : Std.Irrefl RuleRow.Precedes := ⟨RuleRow.Precedes.irrefl⟩
  have hasymm : Std.Antisymm RuleRow.Precedes :=
    ⟨fun r s hrs hsr => absurd (hrs.trans hsr) (RuleRow.Precedes.irrefl r)⟩
  exact h.ordered.eq_of_mem_iff h'.ordered fun row => (h.mem_iff row).trans (h'.mem_iff row).symm

end Tables
end Database
end AccessControl
