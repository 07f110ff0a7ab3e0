import AccessControl.Schema.Form
import Mathlib

/-! # What a form takes

When every field of a form can be taken from an input, and the input names no other fields, the form
gives all its fields, in its own order (`Form.check_object`).  What is left of these after a choice
by name is found under the chosen names (`Fields.get?_filter`). -/

namespace AccessControl

namespace Fields

theorem get?_map (names : List String) (value : String → Value) (name : String) :
    get? (names.map fun n => (n, value n)) name = if name ∈ names then some (value name)
      else none := by
  induction names with
  | nil => rfl
  | cons n names ih =>
      rw [List.map_cons, get?_cons, ih]
      by_cases h : name = n <;> simp [h]

/-- Only the fields with chosen names are left. -/
theorem get?_filter (fields : Fields) (chosen : String → Bool) (name : String) :
    get? (fields.filter fun f => chosen f.1) name = if chosen name then fields.get? name
      else none := by
  induction fields with
  | nil => simp [get?]
  | cons f fields ih =>
      rw [List.filter_cons, get?_cons]
      by_cases hf : chosen f.1
      · rw [if_pos hf, get?_cons, ih]
        by_cases h : name = f.1 <;> simp [h, hf]
      · rw [if_neg hf, ih]
        by_cases h : name = f.1 <;> simp [h, hf]

theorem any_name (fields : Fields) (name : String) :
    fields.any (·.1 == name) = (fields.get? name).isSome := by
  induction fields with
  | nil => rfl
  | cons f fields ih =>
      rw [List.any_cons, ih, get?_cons]
      by_cases h : name = f.1
      · simp [h]
      · simp [h, Ne.symm h]

end Fields

namespace Schema

variable {fields : Fields}

theorem texts_texts (names : List String) : texts (Value.texts names) = .ok names := by
  have hall : ∀ i, Checked.all text i (names.map .text) = .ok names := by
    induction names with
    | nil => exact fun i => rfl
    | cons name names ih =>
        intro i
        rw [List.map_cons, Checked.all, ih (i + 1)]
        rfl
  exact hall 0

theorem check_texts (name : String) (names : List String) :
    (textsField name).orNull.check (Value.texts names) = .ok (Value.texts names) := by
  change (((texts (Value.texts names)).map Value.texts).map some).map (Value.ofOption id) = _
  rw [texts_texts]
  rfl

theorem check_text? (name : String) (column : Option String) :
    (textField name).orNull.check (Value.ofOption .text column) =
      .ok (Value.ofOption .text column) := by
  cases column <;> rfl

theorem noOthers_of_known {known : List String} (h : ∀ f ∈ fields, f.1 ∈ known) :
    noOthers fields known = .ok () := by
  have hnone : (fields.filter fun f => !known.contains f.1) = [] := by
    rw [List.filter_eq_nil_iff]
    exact fun f hf => by simpa using h f hf
  rw [noOthers, hnone]

theorem Field.take_orNull {f : Field} {w : Value}
    (h : ∀ v, fields.get? f.name = some v → f.orNull.check v = .ok w) :
    f.orNull.take fields = .ok (if (fields.get? f.name).isSome then w else .null) := by
  rw [Field.take]
  change withDefault fields f.name f.orNull.check .null = _
  unfold withDefault
  cases hv : fields.get? f.name with
  | none => rfl
  | some v =>
      dsimp only
      rw [h v hv]
      rfl

namespace Form

variable {form : Form}

theorem takeAll_of_take {taken : String → Value}
    (h : ∀ f ∈ form, f.take fields = .ok (taken f.name)) :
    takeAll fields form = .ok ((form.map (·.name)).map fun n => (n, taken n)) := by
  induction form with
  | nil => rfl
  | cons f form ih =>
      obtain ⟨hf, hform⟩ := List.forall_mem_cons.mp h
      rw [takeAll, hf, ih hform]
      rfl

/-- An input that names fields of the form only gives all fields of the form. -/
theorem check_object (taken : String → Value) (h : ∀ f ∈ form, f.take fields = .ok (taken f.name))
    (hknown : ∀ f ∈ fields, f.1 ∈ form.map (·.name)) :
    form.check (.object fields) = .ok ((form.map (·.name)).map fun n => (n, taken n)) := by
  change (fun values _ => values) <$> takeAll fields form <*>
    noOthers fields (form.map (·.name)) = _
  rw [takeAll_of_take h, noOthers_of_known hknown]
  rfl

end Form
end Schema
end AccessControl
