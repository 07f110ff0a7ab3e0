import AccessControl.Order
import AccessControl.Text.Blank
import Mathlib

/-! # Distinct and ascending lists

`Text.distinct` keeps the members of a list and no repeats, each where it first occurs
(`distinct_eq_eraseDups`).  An ascending list is determined by its members (`ascending_congr`): two
lists that are alike as sets give the same ascending list. -/

namespace AccessControl

/-! ### Dropping repeats -/

section distinct

variable {α : Type} [BEq α] [LawfulBEq α]

/-- The members kept so far and those of the list are kept, none of them twice. -/
theorem foldl_distinct (xs kept : List α) (h : kept.Nodup) :
    let result := xs.foldl (fun kept x => if kept.contains x then kept else x :: kept) kept
    result.Nodup ∧ ∀ x, x ∈ result ↔ x ∈ kept ∨ x ∈ xs := by
  induction xs generalizing kept with
  | nil => exact ⟨h, by simp⟩
  | cons y ys ih =>
      simp only [List.foldl_cons]
      by_cases hy : y ∈ kept
      · rw [if_pos (by simpa using hy)]
        obtain ⟨hn, hm⟩ := ih kept h
        refine ⟨hn, fun x => (hm x).trans ?_⟩
        rw [List.mem_cons]
        constructor
        · exact fun hx => hx.imp_right .inr
        · rintro (hx | rfl | hx)
          · exact .inl hx
          · exact .inl hy
          · exact .inr hx
      · rw [if_neg (by simpa using hy)]
        obtain ⟨hn, hm⟩ := ih (y :: kept) (List.nodup_cons.mpr ⟨hy, h⟩)
        refine ⟨hn, fun x => (hm x).trans ?_⟩
        simp only [List.mem_cons]
        tauto

theorem mem_distinct (xs : List α) (x : α) : x ∈ Text.distinct xs ↔ x ∈ xs := by
  rw [Text.distinct, List.mem_reverse, (foldl_distinct xs [] .nil).2 x]
  simp

theorem nodup_distinct (xs : List α) : (Text.distinct xs).Nodup :=
  List.nodup_reverse.mpr (foldl_distinct xs [] .nil).1

end distinct

theorem distinct_sublist {α : Type} [BEq α] (xs : List α) : (Text.distinct xs).Sublist xs := by
  have hfold : ∀ xs kept : List α,
      (xs.foldl (fun kept x => if kept.contains x then kept else x :: kept) kept).reverse.Sublist
        (kept.reverse ++ xs) := by
    intro xs
    induction xs with
    | nil => simp
    | cons x xs ih =>
        intro kept
        rw [List.foldl_cons]
        split
        · exact (ih kept).trans (List.Sublist.append_left (List.sublist_cons_self x xs) _)
        · simpa using ih (x :: kept)
  exact hfold xs []

/-- What is kept is each member where it first occurs. -/
theorem distinct_eq_eraseDups {α : Type} [BEq α] (xs : List α) :
    Text.distinct xs = xs.eraseDups := by
  have hloop : ∀ kept : List α,
      (xs.foldl (fun kept x => if kept.contains x then kept else x :: kept) kept).reverse =
        List.eraseDupsBy.loop (· == ·) xs kept := by
    induction xs with
    | nil => exact fun kept => rfl
    | cons x xs ih =>
        intro kept
        rw [List.foldl_cons, ih, List.eraseDupsBy.loop, List.contains_eq_any_beq]
        cases kept.any (x == ·) <;> rfl
  exact hloop []

/-- Images that are told apart as their members are, are kept as these are kept. -/
theorem distinct_map {α β : Type} [BEq α] [BEq β] {f : α → β} (h : ∀ x y, (f x == f y) = (x == y))
    (xs : List α) :
    Text.distinct (xs.map f) = (Text.distinct xs).map f := by
  have hcontains : ∀ (kept : List α) x, (kept.map f).contains (f x) = kept.contains x := by
    intro kept x
    rw [List.contains_eq_any_beq, List.contains_eq_any_beq, List.any_map]
    simp only [Function.comp_def, h]
  have hfold : ∀ xs kept : List α,
      (xs.map f).foldl (fun kept y => if kept.contains y then kept else y :: kept) (kept.map f) =
        (xs.foldl (fun kept x => if kept.contains x then kept else x :: kept) kept).map f := by
    intro xs
    induction xs with
    | nil => exact fun kept => rfl
    | cons x xs ih =>
        intro kept
        rw [List.map_cons, List.foldl_cons, List.foldl_cons, hcontains]
        split
        · exact ih kept
        · exact ih (x :: kept)
  rw [Text.distinct, Text.distinct, List.map_reverse]
  exact congrArg List.reverse (hfold xs [])

theorem distinct_eq_self {α : Type} [BEq α] {xs : List α}
    (h : xs.Pairwise fun x y => (y == x) = false) :
    Text.distinct xs = xs := by
  have hfold : ∀ (xs kept : List α), (∀ x ∈ xs, ∀ y ∈ kept, (x == y) = false) →
      (xs.Pairwise fun x y => (y == x) = false) →
      xs.foldl (fun kept x => if kept.contains x then kept else x :: kept) kept = xs.reverse ++
        kept := by
    intro xs
    induction xs with
    | nil => exact fun kept _ _ => rfl
    | cons x xs ih =>
        intro kept hkept hxs
        obtain ⟨hx, hxs⟩ := List.pairwise_cons.mp hxs
        have hnew : kept.contains x = false := by
          rw [List.contains_eq_any_beq, List.any_eq_false]
          exact fun y hy => by rw [hkept x List.mem_cons_self y hy]; exact Bool.false_ne_true
        rw [List.foldl_cons, hnew, if_neg Bool.false_ne_true, ih (x :: kept) ?_ hxs,
          List.reverse_cons, List.append_assoc, List.singleton_append]
        intro z hz y hy
        rcases List.mem_cons.mp hy with rfl | hy
        · exact hx z hz
        · exact hkept z (List.mem_cons_of_mem x hz) y hy
  rw [Text.distinct, hfold xs [] (by simp) h, List.append_nil, List.reverse_reverse]

theorem distinct_of_nodup {α : Type} [BEq α] [LawfulBEq α] {xs : List α} (h : xs.Nodup) :
    Text.distinct xs = xs :=
  distinct_eq_self (h.imp fun hne => by simpa using Ne.symm hne)

/-! ### Ascending lists -/

section ascending

variable {α : Type} [LinearOrder α]

theorem pairwise_insertAscending (x : α) {ys : List α} (h : ys.Pairwise (· < ·)) :
    (insertAscending (fun a b => decide (a < b)) x ys).Pairwise (· < ·) := by
  induction ys with
  | nil => simp [insertAscending]
  | cons y ys ih =>
      obtain ⟨hy, hys⟩ := List.pairwise_cons.mp h
      unfold insertAscending
      split
      · exact h
      · next hne =>
          split
          · next hlt =>
              have hxy : x < y := by simpa using hlt
              refine List.pairwise_cons.mpr ⟨fun z hz => ?_, h⟩
              rcases List.mem_cons.mp hz with rfl | hz
              · exact hxy
              · exact hxy.trans (hy z hz)
          · next hlt =>
              have hyx : y < x := lt_of_le_of_ne (by simpa using hlt) (Ne.symm hne)
              refine List.pairwise_cons.mpr ⟨fun z hz => ?_, ih hys⟩
              rcases (mem_insertAscending _ x z ys).mp hz with rfl | hz
              · exact hyx
              · exact hy z hz

theorem pairwise_ascending (xs : List α) :
    (ascending (fun a b => decide (a < b)) xs).Pairwise (· < ·) := by
  induction xs with
  | nil => exact .nil
  | cons x xs ih => exact pairwise_insertAscending x ih

/-- Lists with the same members give the same ascending list. -/
theorem ascending_congr {xs ys : List α} (h : ∀ x, x ∈ xs ↔ x ∈ ys) :
    ascending (fun a b => decide (a < b)) xs = ascending (fun a b => decide (a < b)) ys := by
  refine List.Pairwise.eq_of_mem_iff (pairwise_ascending xs) (pairwise_ascending ys) fun x => ?_
  rw [mem_ascending, mem_ascending, h]

end ascending

theorem mem_ascendingInts {n : ℤ} {ns : List ℤ} : n ∈ ascendingInts ns ↔ n ∈ ns :=
  mem_ascending _ n ns

theorem mem_ascendingTexts {s : String} {names : List String} :
    s ∈ ascendingTexts names ↔ s ∈ names :=
  mem_ascending _ s names

end AccessControl
