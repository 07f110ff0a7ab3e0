import AccessControl.Proofs.Rule.WellFormed
import AccessControl.Proofs.Session.RuleCalls
import Mathlib

/-! # Changes that say again what a rule says

The normal form of a text, of a word and of names is its own normal form
(`RuleText.trimmed_of_trimmed`, `RuleText.names_of_trimmed`).  So a change that names columns of a
stored rule with what they hold (`RuleChange.Restates`) leaves the draft of the rule as it is, and
the draft is settled to the rule itself: the pattern has not changed, and where it is compiled again
it has the expression that is there (`Restates.changedRule`). -/

namespace AccessControl

open Database
open Text (Trimmed)

/-! ### Normal forms of normal forms -/

namespace RuleText

theorem trimmed_of_trimmed {s : String} (h : Trimmed s) : trimmed s = some s := by
  unfold trimmed
  dsimp only
  rw [h.2, if_neg h.1]

theorem word_of_mem : ∀ word ∈ Scope.words ++ Matching.words, RuleText.word word = word := by
  decide +kernel

theorem names_of_trimmed {names : List String} (hnodup : names.Nodup)
    (htrimmed : ∀ name ∈ names, Trimmed name) :
    RuleText.names names = names := by
  have hstrip : names.map Text.strip = names :=
    (List.map_congr_left fun name hname => (htrimmed name hname).2).trans
    (List.map_id names)
  have hsome : names.filter (· != "") = names :=
    List.filter_eq_self.mpr fun name hname => by simpa using (htrimmed name hname).1
  rw [RuleText.names, hstrip, hsome, distinct_of_nodup hnodup]

theorem names_names (given : List String) : names (names given) = names given :=
  names_of_trimmed (trimmed_names given).1 (trimmed_names given).2

@[simp] theorem textsIn_texts (names : List String) : (Value.texts names).textsIn = some names := by
  simp [Value.texts, Value.textsIn, List.filterMap_map, Function.comp_def, Value.text?]

theorem storedNames_textsIn {v : Value} (h : NamesColumn v) : storedNames v.textsIn = v := by
  rcases h with rfl | ⟨names, rfl, hsome, hnodup, htrimmed⟩
  · rfl
  · unfold storedNames
    rw [textsIn_texts, Option.map_some, names_of_trimmed hnodup htrimmed]
    cases names with
    | nil => exact absurd rfl hsome
    | cons name names => rfl

end RuleText

/-! ### Restating -/

/-- A change names columns of a rule only with what they hold. -/
structure RuleChange.Restates (c : RuleChange) (row : RuleRow) : Prop where
  service : ∀ v ∈ c.service, v = some row.service
  method : ∀ v ∈ c.method, v = some row.method
  pattern : ∀ v ∈ c.pattern, v = row.pattern
  routeName : ∀ v ∈ c.routeName, v = row.routeName
  rolesAny : ∀ v ∈ c.rolesAny, RuleText.storedNames v = row.rolesAny
  permissionsAny : ∀ v ∈ c.permissionsAny, RuleText.storedNames v = row.permissionsAny
  permissionsAll : ∀ v ∈ c.permissionsAll, RuleText.storedNames v = row.permissionsAll
  bypassRoles : ∀ v ∈ c.bypassRoles, RuleText.storedNames v = row.bypassRoles
  bypassPermissions : ∀ v ∈ c.bypassPermissions, RuleText.storedNames v = row.bypassPermissions
  scope : ∀ v ∈ c.scope, v = some row.scope
  sources : ∀ v ∈ c.sources, RuleText.storedSources v = row.sources
  matching : ∀ v ∈ c.matching, v = some row.matching
  allowsEmpty : ∀ v ∈ c.allowsEmpty, v = some row.allowsEmpty
  isActive : ∀ v ∈ c.isActive, v = some row.isActive
  priority : ∀ v ∈ c.priority, v.map Value.int = some row.priority

namespace RuleChange.Restates

variable {c : RuleChange} {row : RuleRow}

theorem elim_eq {α β : Type} {given : Option α} {old : β} {normal : α → β}
    (h : ∀ v ∈ given, normal v = old) :
    given.elim old normal = old := by
  cases given with
  | none => rfl
  | some v => exact h v rfl

theorem bind_trimmed {column : Option String} (h : ∀ s ∈ column, Trimmed s) :
    column.bind RuleText.trimmed = column := by
  cases column with
  | none => rfl
  | some s => exact RuleText.trimmed_of_trimmed (h s rfl)

/-- The draft of the rule stays as it is. -/
theorem apply_eq (h : c.Restates row) (hrow : row.WellFormed) :
    (Draft.ofRow row).apply c = .ofRow row := by
  have htidy := Draft.tidy_ofRow hrow
  have htrimmed : ∀ {column : Option String} {given : Named String}, (∀ s ∈ column, Trimmed s) →
      (∀ v ∈ given, v = column) → given.elim column (·.bind RuleText.trimmed) = column :=
    fun hcolumn hgiven => elim_eq fun v hv => by rw [hgiven v hv, bind_trimmed hcolumn]
  have hword : ∀ {word : String} {given : Named String} {normal : String → String},
      normal word = word →
      (∀ v ∈ given, v = some word) → given.elim (some word) (·.map normal) = some word :=
    fun hnormal hgiven => elim_eq fun v hv => by rw [hgiven v hv, Option.map_some, hnormal]
  have hflag : ∀ {flag : Bool} {given : Named Bool}, (∀ v ∈ given, v = some flag) →
      given.getD (some flag) = some flag := by
    intro flag given hgiven
    cases given with
    | none => rfl
    | some v => exact hgiven v rfl
  unfold Draft.apply
  rw [Draft.mk.injEq]
  exact ⟨htrimmed htidy.service h.service, hword (RuleText.method_of_mem _ hrow.method) h.method,
    htrimmed htidy.pattern h.pattern, rfl, htrimmed htidy.routeName h.routeName, elim_eq h.rolesAny,
    elim_eq h.permissionsAny, elim_eq h.permissionsAll,
    hword (RuleText.word_of_mem _ (List.mem_append_left _ hrow.scope)) h.scope, elim_eq h.sources,
    hword (RuleText.word_of_mem _ (List.mem_append_right _ hrow.matching)) h.matching,
      hflag h.allowsEmpty,
    elim_eq h.bypassRoles, elim_eq h.bypassPermissions, hflag h.isActive, elim_eq h.priority⟩

theorem changesPattern_eq (h : c.Restates row) (hrow : row.WellFormed) :
    (Draft.ofRow row).changesPattern c = false := by
  unfold Draft.changesPattern
  cases hpattern : c.pattern with
  | none => rfl
  | some v =>
      have hsame := bind_trimmed (Draft.tidy_ofRow hrow).pattern
      obtain rfl := h.pattern v hpattern
      simpa [Draft.ofRow] using hsame

end RuleChange.Restates

namespace Draft

variable {row : RuleRow}

theorem binding_ofRow (h : row.WellFormed) : (ofRow row).binding = .ok row.expression := by
  unfold binding
  cases h.bound with
  | route name hname hroute hpattern hexpression =>
      rw [show (ofRow row).routeName = some name from hroute, if_pos (isGiven_of_trimmed hname),
        hexpression]
  | pattern p hp hroute hpattern hexpression =>
      rw [show (ofRow row).routeName = none from hroute,
        show (ofRow row).pattern = some p from hpattern, isGiven_of_trimmed hp, Option.getD_some,
        hexpression]
      rfl

theorem problems_ofRow (h : row.WellFormed) : (ofRow row).problems = [] := by
  have hservice := isGiven_of_trimmed h.service
  have hcolumns : (ofRow row).columnProblems = [] := by
    simp [columnProblems, ofRow, nullProblem, wordProblem, hservice, h.method, h.scope, h.matching]
  rw [problems, hcolumns, binding_ofRow h]
  rfl

/-- The draft of a well-formed rule is in its final form. -/
theorem settle_ofRow (h : row.WellFormed) : (ofRow row).settle false = .ok (ofRow row) := by
  unfold settle
  rw [problems_ofRow h, binding_ofRow h]
  dsimp only [List.isEmpty_nil]
  rw [if_neg (by decide)]
  cases h.bound with
  | route name hname hroute hpattern hexpression =>
      have hgiven : isGiven (ofRow row).routeName = true := by
        rw [show (ofRow row).routeName = some name from hroute, isGiven_of_trimmed hname]
      rw [if_pos hgiven]
      simp [ofRow, hpattern, hexpression]
  | pattern p hp hroute hpattern hexpression =>
      have hgiven : isGiven (ofRow row).routeName = false := by
        rw [show (ofRow row).routeName = none from hroute]
        rfl
      rw [hgiven, if_neg (by decide)]
      split <;> rfl

end Draft

/-- A rule stays as it is when it is changed to what it is. -/
theorem RuleChange.Restates.changedRule {c : RuleChange} {row : RuleRow} (h : c.Restates row)
    (hrow : row.WellFormed) (hpriority : ∃ n, row.priority = .int n ∧ fits n) :
    Session.ChangedRule row c row where
  settled := by
    rw [h.apply_eq hrow, h.changesPattern_eq hrow]
    exact ⟨_, Draft.settle_ofRow hrow, rfl⟩
  passed := by
    obtain ⟨n, hn, hfits⟩ := hpriority
    exact ⟨.int n, by rw [hn, passed, bound, if_pos hfits]; rfl⟩

end AccessControl
