import AccessControl.Proofs.Stores.Search
import AccessControl.Proofs.Text.Pieces
import Mathlib

/-! # Joined keys

A dotted key can be cut at any of its dots: what stands under two keys with a dot between them is
what stands under the second in what stands under the first (`dig_append`), failures included.  A
first key that leads nowhere gives null, under which nothing stands.  With runs of digits that are
not too long to be read both sides are values (`dig_join`). -/

namespace AccessControl.Stores

/-! ### Parts -/

theorem keyParts_join (k₁ k₂ : String) :
    keyParts (k₁ ++ "." ++ k₂) = keyParts k₁ ++ keyParts k₂ := by
  have hchars : (k₁ ++ "." ++ k₂).toList = k₁.toList ++ '.' :: k₂.toList := by simp
  rw [keyParts, hchars, Text.splitOn_join, keyParts, keyParts]

theorem keyParts_ne_nil (key : String) : keyParts key ≠ [] := Text.splitOn_ne_nil '.' key.toList

/-! ### Values -/

theorem follow_null {parts : List (List Char)} (hparts : parts ≠ []) :
    follow .null parts = .ok .null := by
  cases parts with
  | nil => exact absurd rfl hparts
  | cons part parts => rfl

/-- Parts are followed one after the other, by induction on the first ones.  Where one of these
leads nowhere the others are followed from null. -/
theorem follow_append (v : Value) (parts : List (List Char)) {others : List (List Char)}
    (hothers : others ≠ []) :
    follow v (parts ++ others) = (follow v parts >>= fun middle => follow middle others) := by
  induction parts generalizing v with
  | nil => rfl
  | cons part parts ih =>
      rw [List.cons_append, follow, follow]
      cases hchild : child v part with
      | error e => rfl
      | ok found =>
          cases found with
          | none => exact (follow_null hothers).symm
          | some next => exact ih next

/-- What stands under joined keys stands under the second in what stands under the first. -/
theorem dig_append (v : Value) (k₁ k₂ : String) :
    dig v (k₁ ++ "." ++ k₂) = (dig v k₁ >>= fun middle => dig middle k₂) := by
  change follow v (keyParts (k₁ ++ "." ++ k₂)) = _
  rw [keyParts_join]
  exact follow_append v (keyParts k₁) (keyParts_ne_nil k₂)

/-- With runs of digits that can be read, what stands under joined keys is found in two steps.  It
is null where the first key leads nowhere or to null. -/
theorem dig_join {k₁ k₂ : String} (h₁ : ∀ part ∈ keyParts k₁, Text.WithinLimit part)
    (h₂ : ∀ part ∈ keyParts k₂, Text.WithinLimit part) (v : Value) :
    ∃ middle found, dig v k₁ = .ok middle ∧ dig middle k₂ = .ok found ∧
      dig v (k₁ ++ "." ++ k₂) = .ok found ∧
      ((∀ u, Leads v (keyParts k₁) u → u = .null) → middle = .null ∧ found = .null) := by
  obtain ⟨middle, hmiddle, hleads⟩ := follow_spec h₁ v
  obtain ⟨found, hfound, -⟩ := follow_spec h₂ middle
  have hjoined : dig v (k₁ ++ "." ++ k₂) = .ok found := by
    rw [dig_append, show dig v k₁ = .ok middle from hmiddle]
    exact hfound
  refine ⟨middle, found, hmiddle, hfound, hjoined, ?_⟩
  intro hnull
  have hmiddle : middle = .null := by
    rcases hleads with hleads | ⟨hmiddle, -⟩
    · exact hnull middle ((hleads middle).mpr rfl)
    · exact hmiddle
  subst hmiddle
  exact ⟨rfl, Except.ok.inj (hfound.symm.trans (follow_null (keyParts_ne_nil k₂)))⟩

/-- An index and a name in a list of objects, and the same keys where the first of them is
missing. -/
theorem dig_join_listed :
    let stores : Value := .list [.object [("id", .int 4)], .object [("id", .int 8)]]
    let data : Value := .object [("filters", .object [("stores", stores), ("shops", .null)])]
    (∀ key ∈ ["filters.stores", "filters.shops", "1.id"], ∀ part ∈ keyParts key,
      Text.WithinLimit part) ∧
      dig data "filters.stores" = .ok stores ∧ dig stores "1.id" = .ok (.int 8) ∧
      dig data ("filters.stores" ++ "." ++ "1.id") = .ok (.int 8) ∧
      dig data ("filters.shops" ++ "." ++ "1.id") = .ok .null := by
  intro stores data
  have hshort : ∀ key ∈ ["filters.stores", "filters.shops", "1.id"], ∀ part ∈ keyParts key,
      part.length ≤ Text.digitLimit := by decide +kernel
  have hkeys : ∀ key ∈ ["filters.stores", "filters.shops", "1.id"], ∀ part ∈ keyParts key,
      Text.WithinLimit part :=
    fun key hkey part hpart _ => hshort key hkey part hpart
  have hnull : ∀ u, Leads data (keyParts "filters.shops") u → u = .null := by
    intro u hu
    have hparts : keyParts "filters.shops" = ["filters".toList, "shops".toList] := by decide +kernel
    rw [hparts] at hu
    change Leads (.object _) _ u at hu
    cases hu with
    | field hfilters hu =>
        obtain rfl := Option.some.inj hfilters
        cases hu with
        | field hshops hu =>
            obtain rfl := Option.some.inj hshops
            cases hu
            rfl
  obtain ⟨middle, found, hmiddle, hfound, hjoined, -⟩ :=
    dig_join (hkeys "filters.stores" (by simp)) (hkeys "1.id" (by simp)) data
  obtain rfl : stores = middle := Except.ok.inj hmiddle
  obtain rfl : Value.int 8 = found := Except.ok.inj hfound
  obtain ⟨_, missing, -, -, hmissing, hnone⟩ :=
    dig_join (hkeys "filters.shops" (by simp)) (hkeys "1.id" (by simp)) data
  obtain ⟨-, rfl⟩ := hnone hnull
  exact ⟨hkeys, hmiddle, hfound, hjoined, hmissing⟩

end AccessControl.Stores
