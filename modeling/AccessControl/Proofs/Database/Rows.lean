import AccessControl.Database.Queries
import Mathlib

/-! # Rows that are added, replaced and removed

No two rows of a table have one number (`Table.Keyed`), and changes keep it so.  Then a change
of one row is a change of that row only: what a condition that the row does not meet selects
stays as it was, in its order (`filter_place`, `filter_swapIn`, `filter_without`), and all other
rows stay where they stand (`Keyed.exists_split`).  In the order of their numbers (`Ascending`),
a new row comes last. -/

namespace AccessControl
namespace Database

namespace Table

variable {α : Type} (table : Table α)

/-! ### Adding -/

theorem place_perm (row : α) (rows : List α) : (table.place row rows).Perm (row :: rows) := by
  induction rows with
  | nil => exact .refl _
  | cons r rs ih =>
      unfold place
      split
      · exact .refl _
      · exact (ih.cons r).trans (.swap row r rs)

/-- What does not select a placed row selects what it did before. -/
theorem filter_place {p : α → Bool} {row : α} (hrow : p row = false) (rows : List α) :
    (table.place row rows).filter p = rows.filter p := by
  induction rows with
  | nil => simp [place, hrow]
  | cons r rs ih =>
      unfold place
      split
      · simp [List.filter_cons, hrow]
      · rw [List.filter_cons, List.filter_cons, ih]

theorem insert_eq_ok {t t' : Tables} {row : α} (h : table.insert t row = .ok t') :
    table.admits t (table.rows t) row = true ∧
      t' = table.withRows t (table.place row (table.rows t)) := by
  unfold insert at h
  split at h
  · next hadmits => exact ⟨hadmits, (Except.ok.inj h).symm⟩
  · cases h

theorem ne_of_admits {t : Tables} {others : List α} {row : α}
    (h : table.admits t others row = true) :
    ∀ r ∈ others, table.id r ≠ table.id row ∧ table.clash r row = false := by
  intro r hr
  have hno := ((Bool.and_eq_true _ _).mp h).1
  simp only [Bool.not_eq_true', List.any_eq_false] at hno
  have hclash := hno r hr
  simp only [Bool.or_eq_true, beq_iff_eq, not_or, Bool.not_eq_true] at hclash
  exact hclash

/-! ### Numbers -/

/-- No two rows have one number. -/
def Keyed (rows : List α) : Prop := (rows.map table.id).Nodup

variable {table}

theorem Keyed.eq_of_id {rows : List α} (h : table.Keyed rows) {r s : α} (hr : r ∈ rows)
    (hs : s ∈ rows) (hid : table.id r = table.id s) : r = s := List.inj_on_of_nodup_map h hr hs hid

theorem Keyed.get?_id {t : Tables} (h : table.Keyed (table.rows t)) {row : α}
    (hrow : row ∈ table.rows t) :
    table.get? t (table.id row) = some row := by
  unfold get?
  cases hfound : (table.rows t).find? (table.id · == table.id row) with
  | none => exact absurd (List.find?_eq_none.mp hfound row hrow) (by simp)
  | some r =>
      have hsame : table.id r = table.id row := by simpa using List.find?_some hfound
      rw [h.eq_of_id (List.mem_of_find?_eq_some hfound) hrow hsame]

theorem Keyed.place {rows : List α} (h : table.Keyed rows) {row : α}
    (hnew : ∀ r ∈ rows, table.id r ≠ table.id row) :
    table.Keyed (table.place row rows) := by
  refine (((place_perm table row rows).map table.id).nodup_iff).mpr
    (List.nodup_cons.mpr ⟨fun hmem => ?_, h⟩)
  obtain ⟨r, hr, hid⟩ := List.mem_map.mp hmem
  exact hnew r hr hid

theorem Keyed.filter {rows : List α} (h : table.Keyed rows) (p : α → Bool) :
    table.Keyed (rows.filter p) :=
  h.sublist (List.filter_sublist.map _)

/-! ### Replacing and removing -/

variable (table) in
/-- A row in the place of the one with its number. -/
def swapIn (row r : α) : α := if table.id r == table.id row then row else r

theorem Keyed.map_swapIn_self {rows : List α} (h : table.Keyed rows) {row : α} (hrow : row ∈ rows) :
    rows.map (table.swapIn row) = rows := by
  refine (List.map_congr_left fun r hr => ?_).trans (List.map_id rows)
  unfold swapIn
  split
  · next hid => exact h.eq_of_id hrow hr (beq_iff_eq.mp hid).symm
  · rfl

theorem swapIn_of_ne {row r : α} (h : table.id r ≠ table.id row) : table.swapIn row r = r :=
  if_neg (by simpa using h)

theorem id_swapIn (row r : α) : table.id (table.swapIn row r) = table.id r := by
  unfold swapIn
  split
  · next h => exact (beq_iff_eq.mp h).symm
  · rfl

theorem Keyed.swapIn {rows : List α} (h : table.Keyed rows) (row : α) :
    table.Keyed (rows.map (table.swapIn row)) := by
  have hids : table.id ∘ table.swapIn row = table.id := funext fun r => id_swapIn row r
  rwa [Keyed, List.map_map, hids]

/-- What selects neither a row nor the one in its place selects what it did before. -/
theorem filter_swapIn {rows : List α} (h : table.Keyed rows) {old : α} (row : α) (hold : old ∈ rows)
    (hid : table.id old = table.id row) {p : α → Bool} (hpold : p old = false)
    (hprow : p row = false) :
    (rows.map (table.swapIn row)).filter p = rows.filter p := by
  have hsame : ∀ r ∈ rows, table.swapIn row r = r ∨ (r = old ∧ table.swapIn row r = row) := by
    intro r hr
    by_cases heq : table.id r = table.id row
    · exact .inr ⟨h.eq_of_id hr hold (heq.trans hid.symm), if_pos (by simpa using heq)⟩
    · exact .inl (swapIn_of_ne heq)
  clear h hold
  induction rows with
  | nil => rfl
  | cons r rs ih =>
      have hrs := ih fun s hs => hsame s (List.mem_cons_of_mem r hs)
      rcases hsame r List.mem_cons_self with heq | ⟨rfl, heq⟩
      · rw [List.map_cons, List.filter_cons, List.filter_cons, heq, hrs]
      · simp [heq, hrs, hprow, hpold]

/-- What does not select a row selects what it did before the row was removed. -/
theorem filter_without {rows : List α} (h : table.Keyed rows) {old : α} (hold : old ∈ rows)
    {p : α → Bool} (hpold : p old = false) :
    (rows.filter (table.id · != table.id old)).filter p = rows.filter p := by
  rw [List.filter_filter]
  refine List.filter_congr fun r hr => ?_
  by_cases heq : table.id r = table.id old
  · rw [h.eq_of_id hr hold heq, hpold]
    rfl
  · simp [heq]

/-- A row of its own number stands between others, which stay when it is replaced or removed. -/
theorem Keyed.exists_split {rows : List α} (h : table.Keyed rows) {old : α} (hold : old ∈ rows) :
    ∃ before after, rows = before ++ old :: after ∧
      (∀ new, table.id new = table.id old → rows.map (table.swapIn new) = before ++ new :: after) ∧
      rows.filter (table.id · != table.id old) = before ++ after := by
  obtain ⟨before, after, rfl⟩ := List.append_of_mem hold
  have hother : ∀ r ∈ before ++ after, table.id r ≠ table.id old := by
    unfold Keyed at h
    rw [List.map_append, List.map_cons, List.nodup_middle, ← List.map_append] at h
    exact fun r hr heq => (List.nodup_cons.mp h).1 (List.mem_map.mpr ⟨r, hr, heq⟩)
  have hbefore : ∀ r ∈ before, table.id r ≠ table.id old :=
    fun r hr => hother r (List.mem_append_left after hr)
  have hafter : ∀ r ∈ after, table.id r ≠ table.id old :=
    fun r hr => hother r (List.mem_append_right before hr)
  refine ⟨before, after, rfl, fun new hid => ?_, ?_⟩
  · have hkept : ∀ others : List α, (∀ r ∈ others, table.id r ≠ table.id old) →
        others.map (table.swapIn new) = others :=
      fun others hne => (List.map_congr_left fun r hr => swapIn_of_ne (hid ▸ hne r hr)).trans
        (List.map_id others)
    rw [List.map_append, List.map_cons, hkept before hbefore, hkept after hafter]
    exact congrArg (before ++ · :: after) (if_pos (by simp [hid]))
  · have hkept : ∀ others : List α, (∀ r ∈ others, table.id r ≠ table.id old) →
        others.filter (table.id · != table.id old) = others :=
      fun others hne => List.filter_eq_self.mpr fun r hr => by simpa using hne r hr
    rw [List.filter_append, List.filter_cons_of_neg (by simp), hkept before hbefore,
      hkept after hafter]

/-! ### Order -/

variable (table) in
/-- The rows stand in the order of their numbers. -/
def Ascending (rows : List α) : Prop := rows.Pairwise fun a b => table.id a < table.id b

theorem Ascending.keyed {rows : List α} (h : table.Ascending rows) : table.Keyed rows :=
  List.pairwise_map.mpr (h.imp fun hlt => hlt.ne)

/-- The next number is greater than all that are there. -/
theorem Ascending.lt_nextId {t : Tables} (h : table.Ascending (table.rows t)) :
    ∀ r ∈ table.rows t, table.id r < table.nextId t := by
  unfold nextId
  rcases List.eq_nil_or_concat (table.rows t) with hnil | ⟨rows, last, hrows⟩
  · simp [hnil]
  · rw [hrows, List.concat_eq_append] at h ⊢
    have hlast := (List.pairwise_append.mp h).2.2
    intro r hr
    rcases List.mem_append.mp hr with hr | hr
    · have hlt := hlast r hr last List.mem_cons_self
      simp only [List.getLast?_concat, Option.map_some, Option.getD_some]
      omega
    · obtain rfl := List.mem_singleton.mp hr
      simp

theorem Ascending.concat {rows : List α} (h : table.Ascending rows) {row : α}
    (hrow : ∀ r ∈ rows, table.id r < table.id row) : table.Ascending (rows ++ [row]) :=
  List.pairwise_append.mpr ⟨h, List.pairwise_singleton _ _,
    fun r hr _ hlast => List.mem_singleton.mp hlast ▸ hrow r hr⟩

theorem place_last {rows : List α} {row : α} (h : ∀ r ∈ rows, table.id r < table.id row) :
    table.place row rows = rows ++ [row] := by
  induction rows with
  | nil => rfl
  | cons r rows ih =>
      rw [place, if_neg (h r List.mem_cons_self).not_gt,
        ih fun r' hr' => h r' (List.mem_cons_of_mem r hr')]
      rfl

theorem Ascending.insert_next {t : Tables} (h : table.Ascending (table.rows t)) {row : α}
    (hid : table.id row = table.nextId t) (hfree : ∀ r ∈ table.rows t, table.clash r row = false)
    (hgrounded : table.grounded t row = true) :
    table.insert t row = .ok (table.withRows t (table.rows t ++ [row])) := by
  have hlt : ∀ r ∈ table.rows t, table.id r < table.id row :=
    fun r hr => (h.lt_nextId r hr).trans_eq hid.symm
  have hadmits : table.admits t (table.rows t) row = true := by
    simp only [admits, hgrounded, Bool.and_true, Bool.not_eq_true', List.any_eq_false,
      Bool.or_eq_true, beq_iff_eq, not_or, Bool.not_eq_true]
    exact fun r hr => ⟨(hlt r hr).ne, hfree r hr⟩
  rw [insert, if_pos hadmits, place_last hlt]

/-- A row with a number of its own is placed where its number belongs. -/
theorem Ascending.place {rows : List α} (h : table.Ascending rows) {row : α}
    (hnew : ∀ r ∈ rows, table.id r ≠ table.id row) : table.Ascending (table.place row rows) := by
  induction rows with
  | nil => exact List.pairwise_singleton _ row
  | cons r rows ih =>
      obtain ⟨hr, hrows⟩ := List.pairwise_cons.mp h
      obtain ⟨hne, hnew⟩ := List.forall_mem_cons.mp hnew
      unfold Table.place
      split
      · next hlt =>
          refine List.pairwise_cons.mpr ⟨List.forall_mem_cons.mpr ⟨hlt, fun a ha => ?_⟩, h⟩
          exact hlt.trans (hr a ha)
      · next hge =>
          refine List.pairwise_cons.mpr ⟨fun a ha => ?_, ih hrows hnew⟩
          rcases List.mem_cons.mp ((place_perm table row rows).mem_iff.mp ha) with rfl | ha
          · omega
          · exact hr a ha

theorem Ascending.swapIn {rows : List α} (h : table.Ascending rows) (row : α) :
    table.Ascending (rows.map (table.swapIn row)) := by
  refine List.pairwise_map.mpr (h.imp fun hlt => ?_)
  rwa [id_swapIn, id_swapIn]

theorem Ascending.filter {rows : List α} (h : table.Ascending rows) (p : α → Bool) :
    table.Ascending (rows.filter p) := List.Pairwise.filter p h

end Table
end Database
end AccessControl
