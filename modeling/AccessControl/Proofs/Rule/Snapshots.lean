import AccessControl.Database.Queries
import AccessControl.Rule.Selection
import Mathlib

/-! # Rules that decisions are made from

A stored rule is taken as a snapshot, cached, and restored (`RuleRow.restored`).  The rules
that are restored for a service and a method come from stored ones, and keep their number and
the word for their scope (`mem_rulesFor`, `restored_spec`); the one that is selected is among
them (`mem_of_select`). -/

namespace AccessControl

theorem bind_eq_ok {ε α β : Type} {x : Except ε α} {f : α → Except ε β} {b : β}
    (h : (x >>= f) = .ok b) :
    ∃ a, x = .ok a ∧ f a = .ok b := by
  cases x with
  | error e => cases h
  | ok a => exact ⟨a, rfl, h⟩

theorem exists_of_mem_mapM {α β : Type} {f : α → Except Failure β} {xs : List α} {ys : List β}
    (h : xs.mapM f = .ok ys) {y : β} (hy : y ∈ ys) : ∃ x ∈ xs, f x = .ok y := by
  induction xs generalizing ys with
  | nil =>
      obtain rfl : [] = ys := Except.ok.inj h
      exact absurd hy List.not_mem_nil
  | cons x xs ih =>
      rw [List.mapM_cons] at h
      obtain ⟨z, hz, h⟩ := bind_eq_ok h
      obtain ⟨zs, hzs, h⟩ := bind_eq_ok h
      obtain rfl : z :: zs = ys := Except.ok.inj h
      rcases List.mem_cons.mp hy with rfl | hy
      · exact ⟨x, List.mem_cons_self, hz⟩
      · obtain ⟨w, hw, hwy⟩ := ih hzs hy
        exact ⟨w, List.mem_cons_of_mem x hw, hwy⟩

theorem exists_of_mapM {α β : Type} {f : α → Except Failure β} {xs : List α} {ys : List β}
    (h : xs.mapM f = .ok ys) {x : α} (hx : x ∈ xs) : ∃ y ∈ ys, f x = .ok y := by
  induction xs generalizing ys with
  | nil => cases hx
  | cons x' xs ih =>
      rw [List.mapM_cons] at h
      obtain ⟨z, hz, h⟩ := bind_eq_ok h
      obtain ⟨zs, hzs, h⟩ := bind_eq_ok h
      obtain rfl : z :: zs = ys := Except.ok.inj h
      rcases List.mem_cons.mp hx with rfl | hx
      · exact ⟨z, List.mem_cons_self, hz⟩
      · obtain ⟨y, hy, hxy⟩ := ih hzs hx
        exact ⟨y, List.mem_cons_of_mem z hy, hxy⟩

/-! ### Snapshots -/

namespace Database

/-- The snapshot of a stored rule. -/
def RuleRow.snapshot (row : RuleRow) : Except Failure Rule := do
  let (sources, _) ← Rule.readSources row.sources
  row.toRule sources

/-- A rule has what is read in the columns of a stored one. -/
structure RuleRow.Reads (row : RuleRow) (r : Rule) : Prop where
  id : r.id = .int row.id
  service : r.service = .text row.service
  method : r.method = .text row.method
  priority : r.priority = row.priority
  routeName : r.routeName = givenText row.routeName
  pattern : r.pattern = givenText row.pattern
  expression : r.expression = givenText row.expression
  scope : r.scope = .text row.scope
  matching : r.matching = .text row.matching
  allowsEmpty : r.allowsEmpty = .bool row.allowsEmpty
  sources : ∃ isSound, Rule.readSources row.sources = .ok (r.sources, isSound)
  rolesAny : Rule.readNames row.rolesAny = .ok r.rolesAny
  permissionsAny : Rule.readNames row.permissionsAny = .ok r.permissionsAny
  permissionsAll : Rule.readNames row.permissionsAll = .ok r.permissionsAll
  bypassRoles : Rule.readNames row.bypassRoles = .ok r.bypassRoles
  bypassPermissions : Rule.readNames row.bypassPermissions = .ok r.bypassPermissions

theorem RuleRow.reads_of_snapshot {row : RuleRow} {r : Rule} (h : row.snapshot = .ok r) :
    row.Reads r := by
  obtain ⟨⟨sources, isSound⟩, hsources, h⟩ := bind_eq_ok h
  unfold RuleRow.toRule at h
  obtain ⟨rolesAny, h₁, h⟩ := bind_eq_ok h
  obtain ⟨permissionsAny, h₂, h⟩ := bind_eq_ok h
  obtain ⟨permissionsAll, h₃, h⟩ := bind_eq_ok h
  obtain ⟨bypassRoles, h₄, h⟩ := bind_eq_ok h
  obtain ⟨bypassPermissions, h₅, h⟩ := bind_eq_ok h
  obtain rfl := Except.ok.inj h
  exact ⟨rfl, rfl, rfl, rfl, rfl, rfl, rfl, rfl, rfl, rfl, ⟨isSound, hsources⟩, h₁, h₂, h₃, h₄, h₅⟩

/-- The rule that is restored from the cached snapshot of a stored one. -/
def RuleRow.restored (row : RuleRow) : Except Failure Rule := do
  let rule ← row.snapshot
  Rule.read rule.toValue

namespace Tables

/-- The cached form of the active rules of a service for a method. -/
def rulesPayload (t : Tables) (service method : String) : Except Failure Value := do
  let rules ← (t.activeRules service method).mapM RuleRow.snapshot
  return .list (rules.map Rule.toValue)

/-- The rules in their cached form. -/
def readPayload (payload : Value) : Except Failure (List Rule) :=
  match payload.elements with
  | some items => items.mapM Rule.read
  | none => .error (.type none)

/-- The active rules of a service for a method, as decisions are made from them. -/
def rulesFor (t : Tables) (service method : String) : Except Failure (List Rule) := do
  let payload ← t.rulesPayload service method
  readPayload payload

theorem mem_placeByPriority (r row : RuleRow) (rows : List RuleRow) :
    row ∈ placeByPriority r rows ↔ row = r ∨ row ∈ rows := by
  induction rows with
  | nil => simp [placeByPriority]
  | cons s rows ih =>
      unfold placeByPriority
      split
      · rw [List.mem_cons]
      · rw [List.mem_cons, ih, List.mem_cons]
        tauto

theorem mem_activeRules {t : Tables} {service method : String} {row : RuleRow}
    (h : row ∈ t.activeRules service method) :
    row ∈ t.rules := by
  have hfold : ∀ rows : List RuleRow, ∀ row, row ∈ rows.foldr placeByPriority [] ↔ row ∈ rows := by
    intro rows
    induction rows with
    | nil => exact fun row => Iff.rfl
    | cons r rows ih =>
        exact fun row => by rw [List.foldr_cons, mem_placeByPriority, ih, List.mem_cons]
  exact (List.mem_filter.mp ((hfold _ row).mp h)).1

end Tables

/-! ### Restored rules -/

/-- An entry keeps its fields, and its number is one of them. -/
theorem entry_spec {data : Value} {entry : Rule.Entry} (h : Rule.Entry.read data = .ok entry) :
    Rule.entryFields data = .ok entry.fields ∧ entry.fields.get? "id" = some entry.id := by
  unfold Rule.Entry.read at h
  obtain ⟨fields, hfields, h⟩ := bind_eq_ok h
  obtain ⟨rolesAny, -, h⟩ := bind_eq_ok h
  obtain ⟨permissionsAny, -, h⟩ := bind_eq_ok h
  obtain ⟨permissionsAll, -, h⟩ := bind_eq_ok h
  obtain ⟨bypassRoles, -, h⟩ := bind_eq_ok h
  obtain ⟨bypassPermissions, -, h⟩ := bind_eq_ok h
  cases hid : fields.get? "id" with
  | none =>
      rw [hid] at h
      cases h
  | some id =>
      rw [hid] at h
      obtain ⟨⟨sources, isSound⟩, -, h⟩ := bind_eq_ok h
      obtain rfl := Except.ok.inj h
      exact ⟨hfields, hid⟩

/-- A rule that is read from a cached form keeps its number and the values for its scope, its
priority and its expression. -/
theorem read_toValue {r rule : Rule} (h : Rule.read r.toValue = .ok rule) :
    rule.id = r.id ∧ rule.scope = r.scope ∧ rule.priority = r.priority ∧
      rule.expression = r.expression := by
  obtain ⟨entry, hentry, hrule⟩ := bind_eq_ok h
  obtain ⟨hfields, hid⟩ := entry_spec hentry
  have hscope : (entry.fields.get? "store_scope_mode").getD (.text Scope.none.word) = r.scope := by
    rw [← Except.ok.inj hfields]
    rfl
  have hpriority : (entry.fields.get? "priority").getD (.int 0) = r.priority := by
    rw [← Except.ok.inj hfields]
    rfl
  have hexpression : (entry.fields.get? "path_regex").getD .null = r.expression := by
    rw [← Except.ok.inj hfields]
    rfl
  have hnumber : entry.id = r.id := by
    rw [← Except.ok.inj hfields] at hid
    exact (Option.some.inj hid).symm
  unfold Rule.Entry.toRule at hrule
  split at hrule
  · split at hrule
    · cases hrule
    · obtain rfl := Except.ok.inj hrule
      exact ⟨hnumber, hscope, hpriority, hexpression⟩
  · cases hrule

theorem snapshot_spec {row : RuleRow} {r : Rule} (h : row.snapshot = .ok r) :
    r.id = .int row.id ∧ r.scope = .text row.scope ∧ r.priority = row.priority ∧
      r.expression = RuleRow.givenText row.expression :=
  let reads := RuleRow.reads_of_snapshot h
  ⟨reads.id, reads.scope, reads.priority, reads.expression⟩

/-- A restored rule has the number of the stored one, and a text for its scope. -/
theorem restored_spec {row : RuleRow} {rule : Rule} (h : row.restored = .ok rule) :
    rule.id = .int row.id ∧ rule.scope = .text row.scope := by
  obtain ⟨r, hr, hread⟩ := bind_eq_ok h
  obtain ⟨hid, hscope, -⟩ := snapshot_spec hr
  obtain ⟨hid', hscope', -⟩ := read_toValue hread
  exact ⟨hid'.trans hid, hscope'.trans hscope⟩

theorem restored_selection {row : RuleRow} {rule : Rule} (h : row.restored = .ok rule) :
    rule.priority = row.priority ∧ rule.expression = RuleRow.givenText row.expression := by
  obtain ⟨r, hr, hread⟩ := bind_eq_ok h
  obtain ⟨-, -, hpriority, hexpression⟩ := snapshot_spec hr
  obtain ⟨-, -, hpriority', hexpression'⟩ := read_toValue hread
  exact ⟨hpriority'.trans hpriority, hexpression'.trans hexpression⟩

/-- The rules of a service come from stored ones. -/
theorem mem_rulesFor {t : Tables} {service method : String} {rules : List Rule}
    (h : t.rulesFor service method = .ok rules) {rule : Rule} (hrule : rule ∈ rules) :
    ∃ row ∈ t.rules, row.restored = .ok rule := by
  obtain ⟨payload, hpayload, hread⟩ := bind_eq_ok h
  obtain ⟨snapshots, hsnapshots, hlist⟩ := bind_eq_ok hpayload
  obtain rfl := Except.ok.inj hlist
  obtain ⟨v, hv, hvrule⟩ := exists_of_mem_mapM hread hrule
  obtain ⟨r, hr, rfl⟩ := List.mem_map.mp hv
  obtain ⟨row, hrow, hsnapshot⟩ := exists_of_mem_mapM hsnapshots hr
  refine ⟨row, Tables.mem_activeRules hrow, ?_⟩
  unfold RuleRow.restored
  rw [hsnapshot]
  exact hvrule

end Database

/-! ### Selection -/

namespace Rule

theorem mem_of_place {rule r : Rule} {rules placed : List Rule} (h : place rule rules = .ok placed)
    (hr : r ∈ placed) :
    r = rule ∨ r ∈ rules := by
  induction rules generalizing placed with
  | nil =>
      obtain rfl := Except.ok.inj h
      exact .inl (List.mem_singleton.mp hr)
  | cons s rules ih =>
      unfold place at h
      obtain ⟨before, -, h⟩ := bind_eq_ok h
      split at h
      · obtain ⟨rest, hrest, h⟩ := bind_eq_ok h
        obtain rfl := Except.ok.inj h
        rcases List.mem_cons.mp hr with rfl | hr
        · exact .inr List.mem_cons_self
        · exact (ih hrest hr).imp_right (List.mem_cons_of_mem s)
      · obtain rfl := Except.ok.inj h
        exact List.mem_cons.mp hr

theorem mem_of_arrange {r : Rule} {rules ordered : List Rule} (h : arrange rules = .ok ordered)
    (hr : r ∈ ordered) :
    r ∈ rules := by
  induction rules generalizing ordered with
  | nil =>
      obtain rfl := Except.ok.inj h
      exact hr
  | cons rule rules ih =>
      unfold arrange at h
      obtain ⟨rest, hrest, h⟩ := bind_eq_ok h
      rcases mem_of_place h hr with rfl | hmem
      · exact List.mem_cons_self
      · exact List.mem_cons_of_mem rule (ih hrest hmem)

theorem mem_of_byPath {path : Value} {rule : Rule} {rules : List Rule}
    (h : byPath path rules = .ok (some rule)) :
    rule ∈ rules := by
  induction rules with
  | nil => cases h
  | cons r rules ih =>
      unfold byPath at h
      obtain ⟨accepts, -, h⟩ := bind_eq_ok h
      split at h
      · obtain rfl := Option.some.inj (Except.ok.inj h)
        exact List.mem_cons_self
      · exact List.mem_cons_of_mem r (ih h)

/-- The rule that is selected is one of the rules. -/
theorem mem_of_select {rules : List Rule} {path route : Value} {rule : Rule}
    (h : select rules path route = .ok (some rule)) : rule ∈ rules := by
  unfold select at h
  obtain ⟨ordered, hordered, h⟩ := bind_eq_ok h
  have harrange : arrange rules = .ok ordered := by
    unfold inOrder at hordered
    split at hordered
    · exact hordered
    · cases hordered
  refine mem_of_arrange harrange ?_
  cases hroute : byRoute ordered route with
  | some r =>
      rw [hroute] at h
      obtain rfl := Option.some.inj (Except.ok.inj h)
      unfold byRoute at hroute
      split at hroute
      · exact List.mem_of_find?_eq_some hroute
      · cases hroute
  | none =>
      rw [hroute] at h
      exact mem_of_byPath h

end Rule
end AccessControl
