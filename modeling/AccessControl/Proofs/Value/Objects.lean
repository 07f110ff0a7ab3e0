import AccessControl.Proofs.Value.Json
import AccessControl.Proofs.Value.Member
import Mathlib

/-! # Objects whose fields are sorted

Sorting the fields of an object by name loses none of them (`get?_sortedFields`), and leaves a value
that is read back from its JSON text when the names are different (`plain_sorted_object`,
`IsJson.stable_sorted`).  So what a string store gives back is the value with its fields sorted
(`toSortedJson_sorted`).  Objects of different names are alike whatever the order of their fields
(`alike_of_perm`), and so what is given back is like what was stored (`IsJson.alike_sorted`). -/

namespace AccessControl
namespace Value

/-! ### Fields -/

theorem perm_insertField (f : String × Value) (fields : Fields) :
    (insertField f fields).Perm (f :: fields) := by
  induction fields with
  | nil => exact .refl _
  | cons g fields ih =>
      unfold insertField
      split
      · exact .refl _
      · exact (ih.cons g).trans (.swap f g fields)

theorem perm_sortedFields (fields : Fields) :
    (sortedFields fields).Perm (fields.map fun f => (f.1, f.2.sorted)) := by
  induction fields with
  | nil => exact .refl _
  | cons f fields ih => exact (perm_insertField _ _).trans (ih.cons _)

theorem names_sortedFields (fields : Fields) :
    ((sortedFields fields).map Prod.fst).Perm (fields.map Prod.fst) := by
  have h := (perm_sortedFields fields).map Prod.fst
  rwa [List.map_map] at h

theorem pairwise_insertField {f : String × Value} {fields : Fields}
    (h : (fields.map Prod.fst).Pairwise (· ≤ ·)) :
    ((insertField f fields).map Prod.fst).Pairwise (· ≤ ·) := by
  induction fields with
  | nil => simp [insertField]
  | cons g fields ih =>
      rw [List.map_cons, List.pairwise_cons] at h
      unfold insertField
      split
      · next hle =>
          rw [List.map_cons, List.map_cons, List.pairwise_cons, List.pairwise_cons]
          refine ⟨fun name hname => ?_, h⟩
          rcases List.mem_cons.mp hname with rfl | hname
          · exact hle
          · exact hle.trans (h.1 name hname)
      · next hle =>
          rw [List.map_cons, List.pairwise_cons]
          refine ⟨fun name hname => ?_, ih h.2⟩
          rw [((perm_insertField f fields).map Prod.fst).mem_iff, List.map_cons,
            List.mem_cons] at hname
          rcases hname with rfl | hname
          · exact le_of_not_ge hle
          · exact h.1 name hname

theorem pairwise_sortedFields {fields : Fields} (h : (fields.map Prod.fst).Nodup) :
    ((sortedFields fields).map Prod.fst).Pairwise (· < ·) := by
  have hle : ∀ fs : Fields, ((sortedFields fs).map Prod.fst).Pairwise (· ≤ ·) := by
    intro fs
    induction fs with
    | nil => exact .nil
    | cons f fs ih => exact pairwise_insertField ih
  exact (hle fields).imp₂ (fun _ _ hle hne => lt_of_le_of_ne hle hne)
    ((names_sortedFields fields).nodup_iff.mpr h)

theorem get?_insertField {f : String × Value} {fields : Fields} (h : f.1 ∉ fields.map Prod.fst)
    (name : String) :
    Fields.get? (insertField f fields) name = if name = f.1 then some f.2
      else fields.get? name := by
  induction fields with
  | nil => exact Fields.get?_cons f [] name
  | cons g fields ih =>
      rw [List.map_cons, List.mem_cons, not_or] at h
      unfold insertField
      split
      · exact Fields.get?_cons f _ name
      · rw [Fields.get?_cons, ih h.2, Fields.get?_cons]
        by_cases hg : name = g.1
        · rw [if_pos hg, if_pos hg, if_neg fun hf => h.1 (hf.symm.trans hg)]
        · rw [if_neg hg, if_neg hg]

/-- Every field of different names is found after sorting, with its value sorted inside. -/
theorem get?_sortedFields {fields : Fields} (h : (fields.map Prod.fst).Nodup) (name : String) :
    Fields.get? (sortedFields fields) name = (fields.get? name).map sorted := by
  induction fields with
  | nil => rfl
  | cons f fields ih =>
      rw [List.map_cons, List.nodup_cons] at h
      have hnew : f.1 ∉ (sortedFields fields).map Prod.fst :=
        fun hmem => h.1 ((names_sortedFields fields).mem_iff.mp hmem)
      rw [sortedFields, get?_insertField (f := (f.1, f.2.sorted)) hnew, ih h.2, Fields.get?_cons]
      split <;> rfl

/-! ### Values -/

theorem sortedItems_eq_map (items : List Value) : sortedItems items = items.map sorted := by
  induction items with
  | nil => rfl
  | cons v items ih => rw [sortedItems, ih, List.map_cons]

theorem plain_sorted_list {items : List Value} (h : ∀ v ∈ items, Plain v.sorted) :
    Plain (Value.list items).sorted := by
  rw [sorted, sortedItems_eq_map]
  refine .list _ fun w hw => ?_
  obtain ⟨v, hv, rfl⟩ := List.mem_map.mp hw
  exact h v hv

/-- An object of different names is plain when its fields are sorted. -/
theorem plain_sorted_object {fields : Fields} (hnames : (fields.map Prod.fst).Nodup)
    (h : ∀ f ∈ fields, Plain f.2.sorted) : Plain (Value.object fields).sorted := by
  rw [sorted]
  refine .object _ (pairwise_sortedFields hnames) fun g hg => ?_
  obtain ⟨f, hf, rfl⟩ := List.mem_map.mp ((perm_sortedFields fields).mem_iff.mp hg)
  exact h f hf

theorem Plain.sorted {v : Value} (h : Plain v) : Plain v.sorted := h.sorted_eq.symm ▸ h

/-- The value with sorted fields has the JSON text of the value. -/
theorem toSortedJson_sorted {v : Value} (h : Plain v.sorted) :
    v.sorted.toSortedJson = v.toSortedJson := by
  rw [toSortedJson, h.sorted_eq, toSortedJson]

theorem IsJson.sorted_sorted {v : Value} (h : IsJson v) : v.sorted.sorted = v.sorted := by
  induction h with
  | list items _ ih =>
      rw [Value.sorted, sortedItems_eq_map, Value.sorted,
        sortedItems_eq_self (List.forall_mem_map.mpr ih)]
  | object fields hnames _ ih =>
      rw [Value.sorted, Value.sorted, sortedFields_eq_self (pairwise_sortedFields hnames)]
      intro g hg
      obtain ⟨f, hf, rfl⟩ := List.mem_map.mp ((perm_sortedFields fields).mem_iff.mp hg)
      exact ih f hf
  | _ => rfl

theorem IsJson.sorted {v : Value} (h : IsJson v) : IsJson v.sorted := by
  induction h with
  | null => exact .null
  | bool b => exact .bool b
  | int n hn => exact .int n hn
  | float x hx hnan => exact .float x hx hnan
  | text s => exact .text s
  | list items _ ih =>
      rw [Value.sorted, sortedItems_eq_map]
      exact .list _ (List.forall_mem_map.mpr ih)
  | object fields hnames _ ih =>
      rw [Value.sorted]
      refine .object _ ((names_sortedFields fields).nodup_iff.mpr hnames) fun g hg => ?_
      obtain ⟨f, hf, rfl⟩ := List.mem_map.mp ((perm_sortedFields fields).mem_iff.mp hg)
      exact ih f hf

/-- Every value that JSON can stand for is read back with its fields sorted. -/
theorem IsJson.stable_sorted {v : Value} (h : IsJson v) : v.sorted.Stable :=
  h.sorted.stable h.sorted_sorted

/-! ### Likeness -/

theorem alikeItems_of_forall₂ {items others : List Value}
    (h : List.Forall₂ (fun v w => v.alike w = true) items others) :
    alikeItems items others = true := by
  induction h with
  | nil => rw [alikeItems]
  | cons hhead _ ih => rw [alikeItems, hhead, ih, Bool.and_self]

theorem alike_object {fields others : Fields} (hlength : fields.length = others.length)
    (h : ∀ f ∈ fields, ∃ v, others.get? f.1 = some v ∧ f.2.alike v = true) :
    (Value.object fields).alike (.object others) = true := by
  have hfields : ∀ fs : Fields, (∀ f ∈ fs, ∃ v, others.get? f.1 = some v ∧ f.2.alike v = true) →
      alikeFields fs others = true := by
    intro fs hfs
    induction fs with
    | nil => rw [alikeFields]
    | cons f fs ih =>
        obtain ⟨v, hv, halike⟩ := hfs f List.mem_cons_self
        rw [Fields.get?] at hv
        rw [alikeFields, hv, ih fun g hg => hfs g (List.mem_cons_of_mem f hg)]
        exact Bool.and_eq_true_iff.mpr ⟨halike, rfl⟩
  rw [alike, hlength, hfields fields h, beq_self_eq_true, Bool.and_self]

theorem get?_of_mem {fields : Fields} (hnames : (fields.map Prod.fst).Nodup) {f : String × Value}
    (hf : f ∈ fields) :
    fields.get? f.1 = some f.2 := by
  induction fields with
  | nil => cases hf
  | cons g fields ih =>
      rw [List.map_cons, List.nodup_cons] at hnames
      rw [Fields.get?_cons]
      rcases List.mem_cons.mp hf with rfl | hf
      · exact if_pos rfl
      · have hne : f.1 ≠ g.1 := fun heq => hnames.1 (heq ▸ List.mem_map_of_mem hf)
        rw [if_neg hne, ih hnames.2 hf]

/-- Objects of the same fields with different names are alike, in whatever order the fields
stand. -/
theorem alike_of_perm {fields others : Fields} (hperm : fields.Perm others)
    (hnames : (others.map Prod.fst).Nodup) (h : ∀ f ∈ fields, f.2.alike f.2 = true) :
    (Value.object fields).alike (.object others) = true :=
  alike_object hperm.length_eq fun f hf => ⟨f.2, get?_of_mem hnames (hperm.mem_iff.mp hf), h f hf⟩

theorem Plain.alike_self {v : Value} (h : Plain v) : v.alike v = true := by
  induction h with
  | null => rfl
  | bool b => cases b <;> rfl
  | int n _ => rw [alike_int, decide_eq_true_iff]
  | text s => rw [alike_text, beq_self_eq_true]
  | list items _ ih =>
      rw [alike]
      exact alikeItems_of_forall₂ (List.forall₂_same.mpr ih)
  | object fields hnames _ ih =>
      exact alike_of_perm (.refl _) (hnames.imp fun hlt => ne_of_lt hlt) ih

theorem alike_float {x : Double} (hnan : x ≠ .nan) : (Value.float x).alike (.float x) = true := by
  cases x with
  | nan => exact absurd rfl hnan
  | infinite negative => cases negative <;> rfl
  | finite negative m e =>
      change (compareNumbers? (.float (.finite negative m e)) (.float (.finite negative m e)) ==
        some .eq) = true
      simp [compareNumbers?, quantity?, Quantity.compare]

/-- A value that JSON can stand for is like the value with sorted fields. -/
theorem IsJson.alike_sorted {v : Value} (h : IsJson v) : v.alike v.sorted = true := by
  induction h with
  | null => rfl
  | bool b => exact (Plain.bool b).alike_self
  | int n hn => exact (Plain.int n hn).alike_self
  | float x _ hnan => exact alike_float hnan
  | text s => exact (Plain.text s).alike_self
  | list items _ ih =>
      rw [Value.sorted, sortedItems_eq_map, alike]
      exact alikeItems_of_forall₂ (List.forall₂_map_right_iff.mpr (List.forall₂_same.mpr ih))
  | object fields hnames _ ih =>
      rw [Value.sorted]
      have hlength : fields.length = (sortedFields fields).length := by
        rw [(perm_sortedFields fields).length_eq, List.length_map]
      refine alike_object hlength fun f hf => ⟨f.2.sorted, ?_, ih f hf⟩
      rw [get?_sortedFields hnames, get?_of_mem hnames hf, Option.map_some]

end Value
end AccessControl
