import AccessControl.Schema.Coercion
import Mathlib

/-! # Checks side by side

A check of several parts gives a value just when each part does (`Checked.seq_eq_ok_iff`).  Without
its value, its outcome is that of its parts in a row (`Checked.together`), and when all parts but
one give values it is the outcome of that one (`Checked.together_eq`). -/

namespace AccessControl.Schema

namespace Checked

variable {α β : Type}

/-! ### Values -/

theorem map_eq_ok_iff {f : α → β} {x : Checked α} {b : β} :
    x.map f = .ok b ↔ ∃ a, x = .ok a ∧ f a = b := by
  cases x <;> simp [map]

theorem fmap_eq_ok_iff {f : α → β} {x : Checked α} {b : β} :
    f <$> x = .ok b ↔ ∃ a, x = .ok a ∧ f a = b :=
  map_eq_ok_iff

theorem seq_eq_ok_iff {f : Checked (α → β)} {x : Checked α} {b : β} :
    f <*> x = .ok b ↔ ∃ g a, f = .ok g ∧ x = .ok a ∧ g a = b := by
  change seq f (fun _ => x) = .ok b ↔ _
  cases f <;> cases x <;> simp [seq]

theorem andThen_eq_ok_iff {x : Checked α} {f : α → Checked β} {b : β} :
    x.andThen f = .ok b ↔ ∃ a, x = .ok a ∧ f a = .ok b := by
  cases x <;> simp [andThen]

theorem under_eq_ok_iff {place : Place} {x : Checked α} {a : α} :
    under place x = .ok a ↔ x = .ok a := by
  cases x <;> simp [under]

theorem under_eq_stopped_iff {place : Place} {x : Checked α} {why : Failure} :
    under place x = .stopped why ↔ x = .stopped why := by
  cases x <;> simp [under]

theorem andThen_eq_stopped_iff {x : Checked α} {f : α → Checked β} {why : Failure} :
    x.andThen f = .stopped why ↔ x = .stopped why ∨ ∃ a, x = .ok a ∧ f a = .stopped why := by
  cases x <;> simp [andThen]

theorem refused_ne_ok {text : String} {a : α} : refused text ≠ .ok a := by
  intro h
  cases h

theorem refused_ne_stopped {text : String} {why : Failure} :
    (refused text : Checked α) ≠ .stopped why := by
  intro h
  cases h

/-! ### Verdicts -/

/-- The outcome without its value. -/
def verdict (x : Checked α) : Checked Unit := x.map fun _ => ()

theorem verdict_eq_ok_iff {x : Checked α} : x.verdict = .ok () ↔ ∃ a, x = .ok a := by
  cases x <;> simp [verdict, map]

theorem verdict_eq_stopped_iff {x : Checked α} {why : Failure} :
    x.verdict = .stopped why ↔ x = .stopped why := by
  cases x <;> simp [verdict, map]

/-- Two outcomes side by side. -/
def both (x y : Checked Unit) : Checked Unit := (fun _ _ => ()) <$> x <*> y

theorem verdict_fmap (f : α → β) (x : Checked α) : (f <$> x).verdict = x.verdict := by
  cases x <;> rfl

theorem verdict_seq (f : Checked (α → β)) (x : Checked α) :
    (f <*> x).verdict = both f.verdict x.verdict := by
  cases f <;> cases x <;> rfl

theorem verdict_under (place : Place) (x : Checked α) :
    (under place x).verdict = under place x.verdict := by
  cases x <;> rfl

@[simp] theorem both_ok_left (x : Checked Unit) : both (.ok ()) x = x := by
  cases x <;> rfl

@[simp] theorem both_ok_right (x : Checked Unit) : both x (.ok ()) = x := by
  cases x <;> rfl

theorem both_eq_ok_iff {x y : Checked Unit} : both x y = .ok () ↔ x = .ok () ∧ y = .ok () := by
  cases x <;> cases y <;> simp [both, Functor.map, map, Seq.seq, seq]

/-- Outcomes in a row, side by side. -/
def together (xs : List (Checked Unit)) : Checked Unit := xs.foldl both (.ok ())

theorem foldl_both_eq_ok_iff {first : Checked Unit} {xs : List (Checked Unit)} :
    xs.foldl both first = .ok () ↔ first = .ok () ∧ ∀ x ∈ xs, x = .ok () := by
  induction xs generalizing first with
  | nil => simp
  | cons x xs ih => rw [List.foldl_cons, ih, both_eq_ok_iff, List.forall_mem_cons, and_assoc]

theorem together_eq_ok_iff {xs : List (Checked Unit)} :
    together xs = .ok () ↔ ∀ x ∈ xs, x = .ok () := by
  rw [together, foldl_both_eq_ok_iff]
  exact and_iff_right rfl

/-- Parts that give values do not show beside another part. -/
theorem together_eq {front back : List (Checked Unit)} {x : Checked Unit}
    (hfront : ∀ y ∈ front, y = .ok ()) (hback : ∀ y ∈ back, y = .ok ()) :
    together (front ++ x :: back) = x := by
  have hrest : ∀ first : Checked Unit, back.foldl both first = first := by
    intro first
    induction back with
    | nil => rfl
    | cons y back ih =>
        rw [List.forall_mem_cons] at hback
        rw [List.foldl_cons, hback.1, both_ok_right, ih hback.2]
  have hbefore : front.foldl both (.ok ()) = .ok () := together_eq_ok_iff.mpr hfront
  rw [together, List.foldl_append, hbefore, List.foldl_cons, both_ok_left, hrest]

end Checked

/-! ### Fields -/

variable {α : Type}

theorem withDefault_eq_ok_iff {fields : Fields} {name : String} {check : Value → Checked α}
    {absent a : α} :
    withDefault fields name check absent = .ok a ↔
      (∃ v, fields.get? name = some v ∧ check v = .ok a) ∨ fields.get? name = none ∧
        a = absent := by
  unfold withDefault
  cases hget : fields.get? name with
  | none => simp [eq_comm]
  | some v => simp [Checked.under_eq_ok_iff]

theorem verdict_withDefault (fields : Fields) (name : String) (check : Value → Checked α)
    (absent : α) :
    (withDefault fields name check absent).verdict =
      withDefault fields name (fun v => (check v).verdict) () := by
  unfold withDefault
  cases fields.get? name with
  | none => rfl
  | some v => exact Checked.verdict_under _ _

end AccessControl.Schema
