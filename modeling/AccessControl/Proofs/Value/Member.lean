import AccessControl.Proofs.Order
import AccessControl.Value.Member
import Mathlib

/-! # Members of sets of numbers and of names

Numbers are alike when they are equal, and so are texts.  Hence the members of a set of names are
these names, each once (`members_distinct`). -/

namespace AccessControl
namespace Value

theorem alike_int (m n : ℤ) : (Value.int m).alike (.int n) = decide (m = n) := by
  have h : (Value.int m).alike (.int n) = (compare (m * 1) (n * 1) == .eq) := rfl
  rw [h, mul_one, mul_one]
  by_cases hmn : m = n
  · simp [hmn]
  · simp [hmn]

theorem den_pos_of_quantity? {v : Value} {num : ℤ} {den : ℕ}
    (h : v.quantity? = some (.quotient num den)) : 0 < den := by
  have hratio : ∀ (m : ℕ) (e : ℤ), 0 < (Double.ratio m e).2 := by
    intro m e
    unfold Double.ratio
    split
    · exact Nat.one_pos
    · exact Nat.pow_pos (by decide)
  cases v with
  | bool b =>
      obtain ⟨-, rfl⟩ := Quantity.quotient.inj (Option.some.inj h)
      exact Nat.one_pos
  | int n =>
      obtain ⟨-, rfl⟩ := Quantity.quotient.inj (Option.some.inj h)
      exact Nat.one_pos
  | float x =>
      cases x with
      | finite negative m e =>
          obtain ⟨-, rfl⟩ := Quantity.quotient.inj (Option.some.inj h)
          exact hratio m e
      | _ => cases Option.some.inj h
  | _ => cases h

/-- What is alike to a whole number is a quotient that is equal to it. -/
theorem quantity?_of_alike_int {v : Value} {n : ℤ} (h : v.alike (.int n) = true) :
    ∃ num den, v.quantity? = some (.quotient num den) ∧ num = n * den := by
  have hnumbers : v.alike (.int n) = (compareNumbers? v (.int n) == some .eq) := by
    cases v with
    | float x => cases x <;> rfl
    | _ => rfl
  rw [hnumbers, compareNumbers?] at h
  cases hq : v.quantity? with
  | none =>
      rw [hq] at h
      cases h
  | some q =>
      rw [hq] at h
      cases q with
      | undefined => cases h
      | infinite negative => cases negative <;> cases h
      | quotient num den => exact ⟨num, den, rfl, by simpa [quantity?, Quantity.compare] using h⟩

theorem eq_of_alike_int {v : Value} {m n : ℤ} (hm : v.alike (.int m) = true)
    (hn : v.alike (.int n) = true) : m = n := by
  obtain ⟨num, den, hquantity, hnum⟩ := quantity?_of_alike_int hm
  obtain ⟨num', den', hquantity', hnum'⟩ := quantity?_of_alike_int hn
  obtain ⟨rfl, rfl⟩ : num = num' ∧ den = den' := by simpa [hquantity] using hquantity'
  have hpos : (den : ℤ) ≠ 0 := by exact_mod_cast (den_pos_of_quantity? hquantity).ne'
  exact mul_right_cancel₀ hpos (hnum.symm.trans hnum')

theorem alike_text (a b : String) : (Value.text a).alike (.text b) = (a == b) := rfl

theorem alike_text_iff {v : Value} {s : String} : v.alike (.text s) = true ↔ v = .text s := by
  have hnumbers : compareNumbers? v (.text s) = none := by
    unfold compareNumbers?
    cases v.quantity? <;> rfl
  cases v with
  | text a => rw [alike_text, beq_iff_eq, Value.text.injEq]
  | float x => cases x <;> simp [alike, hnumbers]
  | _ => simp [alike, hnumbers]

section images

variable {α : Type} {f : α → Value}

theorem members_map [BEq α] (hscalar : ∀ x, (f x).isScalar = true)
    (halike : ∀ x y, (f x).alike (f y) = (x == y)) (xs : List α) :
    (Value.list (xs.map f)).members = .ok ((Text.distinct xs).map f) := by
  have hall : (xs.map f).all isScalar = true := by simp [hscalar]
  have hdistinct :
      Text.distinct (xs.map (Member.mk ∘ f)) = (Text.distinct xs).map (Member.mk ∘ f) :=
    distinct_map (f := Member.mk ∘ f) halike xs
  have helements : (Value.list (xs.map f)).elements = some (xs.map f) := rfl
  rw [members, helements]
  simp only [hall, if_true]
  rw [List.map_map, hdistinct, List.map_map]
  rfl

variable [LinearOrder α] (hbefore : ∀ x y, (f x).isBefore (f y) = .ok (decide (x < y)))

include hbefore

theorem placeInOrder_map {x : α} {ys : List α} (hx : x ∉ ys) :
    placeInOrder (f x) (ys.map f) =
      .ok ((insertAscending (fun a b => decide (a < b)) x ys).map f) := by
  induction ys with
  | nil => rfl
  | cons y ys ih =>
      obtain ⟨hne, hx⟩ := not_or.mp (List.mem_cons.not.mp hx)
      rw [List.map_cons, placeInOrder, hbefore, insertAscending, if_neg hne]
      by_cases hlt : x < y
      · rw [if_pos (by simpa using hlt)]
        simp only [not_lt_of_gt hlt, decide_false]
        rfl
      · have hyx : y < x := lt_of_le_of_ne (not_lt.mp hlt) (Ne.symm hne)
        rw [if_neg (by simpa using hlt), ih hx]
        simp only [hyx, decide_true]
        rfl

theorem inOrder_map {xs : List α} (hxs : xs.Nodup) :
    inOrder (xs.map f) = .ok ((ascending (fun a b => decide (a < b)) xs).map f) := by
  induction xs with
  | nil => rfl
  | cons x xs ih =>
      obtain ⟨hx, hxs⟩ := List.nodup_cons.mp hxs
      have hnew : x ∉ ascending (fun a b => decide (a < b)) xs := by rwa [mem_ascending]
      rw [List.map_cons, inOrder, ih hxs]
      exact placeInOrder_map hbefore hnew

theorem sortedMembers_map (hscalar : ∀ x, (f x).isScalar = true)
    (halike : ∀ x y, (f x).alike (f y) = (x == y)) (xs : List α) :
    (Value.list (xs.map f)).sortedMembers =
      .ok ((ascending (fun a b => decide (a < b)) xs).map f) := by
  have hsame : ascending (fun a b => decide (a < b)) (Text.distinct xs) =
      ascending (fun a b => decide (a < b)) xs :=
    ascending_congr (mem_distinct xs)
  rw [sortedMembers, members_map hscalar halike, ← hsame]
  exact inOrder_map hbefore (nodup_distinct xs)

end images

/-! ### Numbers and names -/

theorem isBefore_int (m n : ℤ) : (Value.int m).isBefore (.int n) = .ok (decide (m < n)) := by
  have h : (Value.int m).isBefore (.int n) = .ok (compare (m * 1) (n * 1) == .lt) := rfl
  rw [h, mul_one, mul_one]
  congr 1
  rw [Bool.eq_iff_iff, beq_iff_eq, compare_lt_iff_lt, decide_eq_true_iff]

theorem isBefore_text (a b : String) :
    (Value.text a).isBefore (.text b) = .ok (decide (a < b)) := by
  have h : (Value.text a).isBefore (.text b) = .ok (compare a b == .lt) := rfl
  rw [h]
  congr 1
  rw [Bool.eq_iff_iff, beq_iff_eq, compare_lt_iff_lt, decide_eq_true_iff]

theorem sortedMembers_ints (ns : List ℤ) :
    (ints ns).sortedMembers = .ok ((ascendingInts ns).map .int) :=
  sortedMembers_map isBefore_int (fun _ => rfl)
    (fun m n => (alike_int m n).trans (beq_eq_decide m n).symm) ns

theorem sortedMembers_texts (names : List String) :
    (texts names).sortedMembers = .ok ((ascendingTexts names).map .text) :=
  sortedMembers_map isBefore_text (fun _ => rfl) alike_text names

/-- The members of a list of names are these names, each once. -/
theorem members_distinct (names : List String) :
    (texts names).members = .ok ((Text.distinct names).map .text) :=
  members_map (fun _ => rfl) alike_text names

theorem members_texts {names : List String} (h : names.Nodup) :
    (texts names).members = .ok (names.map .text) := by
  rw [members_distinct, distinct_of_nodup h]

theorem textsAmong_texts (names : List String) : textsAmong (names.map .text) = names := by
  rw [textsAmong, List.filterMap_map]
  exact List.filterMap_some

theorem isAmong_texts (name : String) (names : List String) :
    (Value.text name).isAmong (names.map .text) = names.contains name := by
  rw [isAmong, List.any_map, List.contains_eq_any_beq]
  rfl

end Value
end AccessControl
