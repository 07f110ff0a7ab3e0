import AccessControl.Failure
import AccessControl.Value.Basic

/-! # Checks of structured inputs

A check gives a value, or the issues it found, or it stops.  Checks of the fields of one input
are put side by side: the issues of all of them are reported together, and the first one that
stops is the outcome. -/

namespace AccessControl.Schema

/-- The outcome of a check. -/
inductive Checked (α : Type) where
  | ok (value : α)
  | issues (found : List Issue)
  | stopped (why : Failure)

namespace Checked

/-- The outcome with its value changed. -/
def map {α β : Type} (f : α → β) : Checked α → Checked β
  | .ok a => .ok (f a)
  | .issues found => .issues found
  | .stopped why => .stopped why

/-- The outcome of two checks side by side. -/
def seq {α β : Type} (f : Checked (α → β)) (x : Unit → Checked α) : Checked β :=
  match f with
  | .stopped why => .stopped why
  | .ok g =>
    match x () with
    | .ok a => .ok (g a)
    | .issues found => .issues found
    | .stopped why => .stopped why
  | .issues first =>
    match x () with
    | .ok _ => .issues first
    | .issues found => .issues (first ++ found)
    | .stopped why => .stopped why

instance : Applicative Checked where
  pure := .ok
  map := map
  seq := seq

/-- The outcome of a check with a further check of its value. -/
def andThen {α β : Type} (x : Checked α) (f : α → Checked β) : Checked β :=
  match x with
  | .ok a => f a
  | .issues found => .issues found
  | .stopped why => .stopped why

/-- One issue where the value itself stands. -/
def issue {α : Type} (kind : String) : Checked α := .issues [⟨[], kind, none⟩]

/-- The issue of a failed check, with its text. -/
def refused {α : Type} (text : String) : Checked α := .issues [⟨[], "value_error", some text⟩]

/-- The outcome for what stands at a place of an input. -/
def under {α : Type} (place : Place) : Checked α → Checked α
  | .issues found => .issues (found.map fun i => { i with place := place :: i.place })
  | other => other

/-- The outcomes for the members of a list, from a position on. -/
def all {α : Type} (check : Value → Checked α) : Nat → List Value → Checked (List α)
  | _, [] => .ok []
  | i, v :: vs => (fun a as => a :: as) <$> under (.index i) (check v) <*> all check (i + 1) vs

/-- The value, or the failure of the input. -/
def toExcept {α : Type} : Checked α → Except Failure α
  | .ok a => .ok a
  | .issues found => .error (.schema found)
  | .stopped why => .error why

end Checked
end AccessControl.Schema
