import AccessControl.Proofs.Rule.Restating
import AccessControl.Proofs.Schema.Forms
import Mathlib

/-! # Writing back what was read

The form of a change takes every column of a stored rule as it is, but for the sources, in which it
names the buckets that are not there as null (`RuleRow.check_taken`).  So an input that names
columns of a rule with what they hold is read as a change that restates the rule
(`exists_read_restating`).  Such a change goes through for every stored rule that calls can lead to,
and leaves all rows of all tables as they are (`updateRule_restating`). -/

namespace AccessControl

open Database
open Text (Trimmed)

/-! ### Rules that calls lead to -/

namespace Session

variable {rows : List RuleRow}

theorem Reachable.wellFormed (h : Reachable rows) : ∀ row ∈ rows, row.WellFormed :=
  h.induct (Q := fun rows => ∀ row ∈ rows, row.WellFormed) (fun row hrow => by cases hrow)
    fun _ _ hwrite ht => hwrite.wellFormed ht

theorem Reachable.sound (h : Reachable rows) : ∀ row ∈ rows, row.Sound :=
  h.induct (Q := fun rows => ∀ row ∈ rows, row.Sound) (fun row hrow => by cases hrow)
    fun _ _ hwrite ht =>
      hwrite.forall_rules (fun hnew => hnew.sound) (fun hchanged hold => hchanged.sound hold)
      (fun _ hold => ⟨hold.names, hold.sources, hold.priority⟩) ht

theorem exists_storedSources {d d' : Draft} {c : RuleChange} {patternChanged : Bool}
    (hd : ∃ given, d.sources = RuleText.storedSources given)
    (h : (d.apply c).settle patternChanged = .ok d') :
    ∃ given, d'.sources = RuleText.storedSources given := by
  rw [(Draft.columns_settle h).2.1]
  unfold Draft.apply
  cases c.sources with
  | none => exact hd
  | some given => exact ⟨given, rfl⟩

theorem Reachable.sources (h : Reachable rows) :
    ∀ row ∈ rows, ∃ given, row.sources = RuleText.storedSources given := by
  refine h.induct (Q := fun rows => ∀ row ∈ rows, ∃ given,
    row.sources = RuleText.storedSources given)
    (fun row hrow => by cases hrow) fun _ _ hwrite ht =>
      hwrite.forall_rules (fun hnew => ?_) (fun hchanged hold => ?_)
      (fun _ hold => hold) ht
  · obtain ⟨d, hsettle, rfl⟩ := hnew.settled
    exact exists_storedSources (d := .empty) ⟨Option.none, rfl⟩ hsettle
  · obtain ⟨d, hsettle, rfl⟩ := hchanged.settled
    exact exists_storedSources hold hsettle

end Session

/-! ### What the form takes -/

section taken

open Schema

/-- Sources with all buckets, null where a bucket is not there. -/
def allBuckets : Value → Value
  | .object fields =>
      .object (Stores.Bucket.names.map fun name => (name, (Fields.get? fields name).getD .null))
  | v => v

/-- What the form of a change gives for a column of a rule. -/
def Database.RuleRow.taken (row : RuleRow) (name : String) : Value :=
  if name = "store_id_sources" then allBuckets row.sources else (row.toFields.get? name).getD .null

variable {row : RuleRow}

theorem check_names {v : Value} (h : NamesColumn v) (name : String) :
    (textsField name).orNull.check v = .ok v := by
  rcases h with rfl | ⟨names, rfl, -⟩
  · rfl
  · exact check_texts name names

/-- A column of sources is taken with all buckets. -/
theorem check_sources {v : Value} (h : SourcesColumn v) :
    (Form.nested "store_id_sources" RuleForm.sources).orNull.check v = .ok (allBuckets v) := by
  rcases h with rfl | ⟨fields, rfl, -, -, hfields⟩
  · rfl
  · let bucket (name : String) : Value := (Fields.get? fields name).getD .null
    have htake : ∀ f ∈ RuleForm.sources, f.take fields = .ok (bucket f.name) := by
      unfold RuleForm.sources
      rw [List.forall_mem_map]
      intro b _
      have hcheck : ∀ v, Fields.get? fields (textsField b.name).name = some v →
          (textsField b.name).orNull.check v = .ok (bucket b.name) := by
        intro v hv
        obtain ⟨-, keys, hkeys, -⟩ := hfields _ (Fields.mem_of_get? hv)
        obtain rfl : v = Value.texts keys := hkeys
        rw [show bucket b.name = Value.texts keys from congrArg (·.getD .null) hv]
        exact check_texts b.name keys
      rw [Field.take_orNull hcheck]
      cases hb : Fields.get? fields b.name with
      | none => simp [bucket, textsField, Field.orNull, hb]
      | some v => simp [textsField, Field.orNull, hb]
    have hobject := Form.check_object bucket htake fun f hf => (hfields f hf).1
    change (((Form.check RuleForm.sources (.object fields)).map Value.object).map some).map
      (Value.ofOption id) = _
    rw [hobject]
    rfl

/-- Every column of a rule is taken by the form of a change. -/
theorem check_taken (hrow : row.WellFormed) (hpriority : ∃ n, row.priority = .int n)
    {given : Fields} (hown : ∀ name v, given.get? name = some v → row.toFields.get? name = some v) :
    ∀ f ∈ RuleForm.change,
      f.take given = .ok (if (given.get? f.name).isSome then row.taken f.name else .null) := by
  obtain ⟨n, hn⟩ := hpriority
  have hnames := hrow.names
  simp only [RuleRow.nameColumns, List.forall_mem_cons] at hnames
  obtain ⟨hrolesAny, hpermissionsAny, hpermissionsAll, hbypassRoles, hbypassPermissions, -⟩ :=
    hnames
  have htake : ∀ {f : Field} {w : Value}, row.toFields.get? f.name = some w →
      f.orNull.check w = .ok (row.taken f.name) →
      f.orNull.take given =
        .ok (if (given.get? f.name).isSome then row.taken f.name else .null) := by
    intro f w hw hcheck
    refine Field.take_orNull fun v hv => ?_
    obtain rfl : w = v := Option.some.inj (hw.symm.trans (hown _ v hv))
    exact hcheck
  have hint : (intField "priority").orNull.check row.priority = .ok row.priority := by
    rw [hn]
    rfl
  unfold RuleForm.change
  simp only [RuleForm.nameFields, List.map_cons, List.map_nil, List.cons_append, List.nil_append,
    List.forall_mem_cons]
  exact ⟨htake rfl rfl, htake rfl rfl, htake rfl (check_text? _ _), htake rfl (check_text? _ _),
    htake rfl (check_names hrolesAny _), htake rfl (check_names hpermissionsAny _),
    htake rfl (check_names hpermissionsAll _), htake rfl (check_names hbypassRoles _),
    htake rfl (check_names hbypassPermissions _), htake rfl rfl,
      htake rfl (check_sources hrow.sources), htake rfl rfl,
    htake rfl rfl, htake rfl rfl, htake rfl hint, fun _ hnone => by cases hnone⟩

theorem storedSources_allBuckets (given : Option SourceKeys) :
    RuleText.storedSources (SourceKeys.ofValue (allBuckets (RuleText.storedSources given))) =
      RuleText.storedSources given := by
  have hnull : Value.null.textsIn = none := rfl
  cases given with
  | none => rfl
  | some keys =>
      rcases keys with ⟨_ | path, _ | query, _ | body⟩ <;>
        simp [RuleText.storedSources, allBuckets, SourceKeys.ofValue, Stores.Bucket.names,
          Stores.Bucket.all, Stores.Bucket.name, Fields.get?, List.lookup, RuleText.names_names,
          hnull]

/-- An input that names columns of a rule with what they hold is read as a change
that restates the rule. -/
theorem exists_read_restating (hrow : row.WellFormed) (hpriority : ∃ n, row.priority = .int n)
    (hsources : ∃ given, row.sources = RuleText.storedSources given) {given : Fields}
    (hown : ∀ f ∈ given, f.1 ∈ RuleForm.change.map (·.name) ∧ row.toFields.get? f.1 = some f.2) :
    ∃ c, RuleChange.read (.object given) = .ok c ∧ c.Restates row := by
  let taken (name : String) : Value := if (given.get? name).isSome then row.taken name else .null
  have hcheck := Form.check_object taken
    (check_taken hrow hpriority fun name v hv => (hown _ (Fields.mem_of_get? hv)).2) fun f hf =>
      (hown f hf).1
  let kept : Fields := ((RuleForm.change.map (·.name)).map fun n => (n, taken n)).filter fun f =>
      given.any (·.1 == f.1)
  have hread : RuleChange.read (.object given) = .ok (.ofFields kept) := by
    rw [RuleChange.read, Form.read, hcheck]
    rfl
  -- What is left of the form under a name is what is taken of the column, if it is there.
  have hkept : ∀ {α : Type} {name : String} {view : Value → α},
      name ∈ RuleForm.change.map (·.name) →
      ∀ v ∈ (kept.get? name).map view, v = view (row.taken name) := by
    intro α name view hname v hv
    obtain ⟨w, hw, rfl⟩ := Option.map_eq_some_iff.mp hv
    rw [show kept.get? name = _ from Fields.get?_filter _ (fun n => given.any (·.1 == n)) name,
      Fields.any_name,
      Fields.get?_map, if_pos hname] at hw
    split at hw
    · next hgiven => rw [← Option.some.inj hw, show taken name = row.taken name from if_pos hgiven]
    · cases hw
  have htext? : ∀ column : Option String, (Value.ofOption .text column).text? = column := by
    intro column
    cases column <;> rfl
  have hnames := hrow.names
  simp only [RuleRow.nameColumns, List.forall_mem_cons] at hnames
  obtain ⟨hrolesAny, hpermissionsAny, hpermissionsAll, hbypassRoles, hbypassPermissions, -⟩ :=
    hnames
  obtain ⟨n, hn⟩ := hpriority
  obtain ⟨stored, hstored⟩ := hsources
  refine ⟨_, hread, ?_⟩
  exact {
    service := hkept (by decide)
    method := hkept (by decide)
    pattern := fun v hv => (hkept (by decide) v hv).trans (htext? row.pattern)
    routeName := fun v hv => (hkept (by decide) v hv).trans (htext? row.routeName)
    rolesAny := fun v hv => hkept (by decide) v hv ▸ RuleText.storedNames_textsIn hrolesAny
    permissionsAny :=
      fun v hv => hkept (by decide) v hv ▸ RuleText.storedNames_textsIn hpermissionsAny
    permissionsAll :=
      fun v hv => hkept (by decide) v hv ▸ RuleText.storedNames_textsIn hpermissionsAll
    bypassRoles := fun v hv => hkept (by decide) v hv ▸ RuleText.storedNames_textsIn hbypassRoles
    bypassPermissions :=
      fun v hv => hkept (by decide) v hv ▸ RuleText.storedNames_textsIn hbypassPermissions
    scope := hkept (by decide)
    sources := fun v hv => by
      obtain rfl := hkept (by decide) v hv
      have htaken : row.taken "store_id_sources" = allBuckets row.sources := rfl
      rw [htaken, hstored, storedSources_allBuckets]
    matching := hkept (by decide)
    allowsEmpty := hkept (by decide)
    isActive := hkept (by decide)
    priority := fun v hv => by
      obtain rfl := hkept (by decide) v hv
      have htaken : row.taken "priority" = row.priority := rfl
      rw [htaken, hn]
      rfl }

end taken

/-! ### Calls -/

namespace Session

open Cache

variable {shared : Bool} {left : ℕ} {s : Session} {v : View} {old row : RuleRow} {c : RuleChange}
  {key : Value}

theorem AsksFor.getRule (h : AsksFor key s.tables row) :
    outcome (getRule key) s = (.ok row, s) := by
  obtain ⟨id, hkey, hfound⟩ := h
  unfold Session.getRule
  rw [outcome_bind, outcome_lift, hkey, andThen_ok, outcome_bind, outcome_current, andThen_ok,
    Option.bind_some, hfound]
  rfl

/-- A rule that is there and can be changed is written. -/
theorem ChangedRule.writes (h : ChangedRule old c row) (hold : AsksFor key s.tables old) :
    Writes (updateRule key c) s (Table.rules.replace s.tables row) row := by
  obtain ⟨⟨d, hsettle, rfl⟩, priority, hpassed⟩ := h
  have hsettled :
      outcome (Session.settled ((Draft.ofRow old).apply c) (some old.id)
        ((Draft.ofRow old).changesPattern c)) s =
      (.ok d, s) := by
    unfold Session.settled
    rw [hsettle]
    rfl
  unfold updateRule Writes
  rw [outcome_bind, hold.getRule, andThen_ok]
  dsimp only
  rw [outcome_bind, hsettled, andThen_ok, outcome_bind, outcome_lift, hpassed]
  exact ⟨_, _, rfl⟩

/-- Whatever calls have led to the stored rules: with a cache that answers, an input that names
any fields of a rule with what they hold changes the rule to what it is, and all rows of all
tables stay as they are. -/
theorem updateRule_restating (hs : Reachable s.tables.rules) (hrow : row ∈ s.tables.rules)
    (hid : fits row.id) {given : Fields}
    (hown : ∀ f ∈ given, f.1 ∈ RuleForm.change.map (·.name) ∧ row.toFields.get? f.1 = some f.2)
    (hcounting : Counting shared (left + 1) s.cache v) :
    ∃ c s', RuleChange.read (.object given) = .ok c ∧
      outcome (updateRule (.int row.id) c) s = (.ok row, s') ∧
      s'.tables = s.tables := by
  have hformed := hs.wellFormed row hrow
  obtain ⟨n, hn, hfits⟩ := (hs.sound row hrow).priority
  obtain ⟨c, hread, hrestates⟩ := exists_read_restating hformed ⟨n, hn⟩ (hs.sources row hrow) hown
  have hkeyed := hs.ascending.keyed
  have hasks : AsksFor (.int row.id) s.tables row :=
    ⟨row.id, by rw [askedKey_int, if_pos hid], Table.Keyed.get?_id hkeyed hrow⟩
  have hsame : Table.rules.replace s.tables row = s.tables :=
    congrArg (fun rules => { s.tables with rules := rules }) (hkeyed.map_swapIn_self hrow)
  have hwrites := (hrestates.changedRule hformed ⟨n, hn, hfits⟩).writes hasks
  rw [hsame] at hwrites
  obtain ⟨s', v', hrun, htables, -⟩ := hwrites.raised hcounting
  exact ⟨c, s', hread, hrun, htables⟩

/-- The rule for the orders of a store, as it is stored. -/
def storedOrders : RuleRow where
  id := 1
  service := "shop"
  method := "GET"
  pattern := some "/orders"
  expression := some "^/orders$"
  routeName := none
  rolesAny := .null
  permissionsAny := Value.texts ["orders.read"]
  permissionsAll := .null
  scope := "scoped"
  sources := .object [("query", Value.texts ["store"])]
  matching := "any"
  allowsEmpty := false
  bypassRoles := .null
  bypassPermissions := .null
  isActive := true
  priority := .int 0

theorem create_ordersOfStore :
    (afterRuleCall (.create ordersOfStore) withoutRules).tables.rules = [storedOrders] :=
  rfl

/-- A session with that rule, over an empty cache. -/
def withOrders : Session :=
  { withoutRules with tables := { Tables.empty with rules := [storedOrders] } }

/-- Some fields of that rule with what they hold. -/
def ordersAgain : Fields :=
  [("service", .text "shop"), ("method", .text "GET"), ("path_dsl", .text "/orders"),
   ("route_name", .null),
    ("permissions_any", Value.texts ["orders.read"]), ("store_scope_mode", .text "scoped"),
    ("store_id_sources", .object [("query", Value.texts ["store"])]), ("priority", .int 0)]

theorem updateRule_restating_orders :
    Reachable withOrders.tables.rules ∧ storedOrders ∈ withOrders.tables.rules ∧
      fits storedOrders.id ∧
    (∀ f ∈ ordersAgain, f.1 ∈ RuleForm.change.map (·.name) ∧
      storedOrders.toFields.get? f.1 = some f.2) ∧
    Counting false (0 + 1) withOrders.cache (fun _ => none) ∧
    ∃ c s', RuleChange.read (.object ordersAgain) = .ok c ∧
      outcome (updateRule (.int 1) c) withOrders =
      (.ok storedOrders, s') ∧ s'.tables = withOrders.tables := by
  have hreachable : Reachable withOrders.tables.rules :=
    create_ordersOfStore ▸ Reachable.call withoutRules (.create ordersOfStore) .none
  have hown : ∀ f ∈ ordersAgain,
      f.1 ∈ RuleForm.change.map (·.name) ∧ storedOrders.toFields.get? f.1 = some f.2 := by
    simp only [ordersAgain, List.forall_mem_cons]
    exact ⟨⟨by decide, rfl⟩, ⟨by decide, rfl⟩, ⟨by decide, rfl⟩, ⟨by decide, rfl⟩, ⟨by decide, rfl⟩,
      ⟨by decide, rfl⟩, ⟨by decide, rfl⟩, ⟨by decide, rfl⟩, fun _ hnone => by cases hnone⟩
  have hcounting : Counting false (0 + 1) withOrders.cache (fun _ => none) :=
    ⟨⟨rfl, List.nodup_nil, fun _ => rfl⟩, fun n _ => room_memory _ n, fun p hp => by cases hp⟩
  have hrow : storedOrders ∈ withOrders.tables.rules := List.mem_cons_self
  exact ⟨hreachable, hrow, rfl, hown, hcounting,
    updateRule_restating hreachable hrow rfl hown hcounting⟩

end Session
end AccessControl
