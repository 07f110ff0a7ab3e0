/-! # Ordered sets

A finite set that an answer shows is a strictly ascending list.  `ascending` builds it from any list
by insertion, so neither order nor repetition of the members matters (`mem_ascending`). -/

namespace AccessControl

/-- Puts a member into an ascending list, unless it is there. -/
def insertAscending {α : Type} [DecidableEq α] (less : α → α → Bool) (x : α) : List α → List α
  | [] => [x]
  | y :: ys =>
    if x = y then y :: ys
    else if less x y then x :: y :: ys
    else y :: insertAscending less x ys

/-- The members of a list in ascending order, each once. -/
def ascending {α : Type} [DecidableEq α] (less : α → α → Bool) (xs : List α) : List α :=
  xs.foldr (insertAscending less) []

/-- Whole numbers in ascending order, each once. -/
def ascendingInts (ns : List Int) : List Int := ascending (fun a b => decide (a < b)) ns

/-- Texts in ascending order by code points, each once. -/
def ascendingTexts (names : List String) : List String :=
  ascending (fun a b => decide (a < b)) names

theorem mem_insertAscending {α : Type} [DecidableEq α] (less : α → α → Bool) (x y : α)
    (ys : List α) :
    y ∈ insertAscending less x ys ↔ y = x ∨ y ∈ ys := by
  induction ys with
  | nil => simp [insertAscending]
  | cons z zs ih =>
    unfold insertAscending
    split
    · next h => simp [h]
    · split
      · simp
      · simp only [List.mem_cons, ih]
        constructor <;> rintro (h | h | h) <;> simp [h]

theorem mem_ascending {α : Type} [DecidableEq α] (less : α → α → Bool) (x : α) (xs : List α) :
    x ∈ ascending less xs ↔ x ∈ xs := by
  induction xs with
  | nil => simp [ascending]
  | cons y ys ih =>
    have h : ascending less (y :: ys) = insertAscending less y (ascending less ys) := rfl
    rw [h, mem_insertAscending, ih, List.mem_cons]

end AccessControl
