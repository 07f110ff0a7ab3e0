import AccessControl.Proofs.Rule.Snapshots
import AccessControl.Proofs.Value.Objects
import AccessControl.Rule.Draft
import Mathlib

/-! # Stored rules that can be read

A stored rule is `Sound` when its lists of names and its sources can be read, and its priority is a
number that fits.  Drafts are made of such columns, whatever change they go through
(`Draft.Sound.change`), so every rule that is created or changed through a draft is sound
(`Draft.Sound.toRow`).  A sound rule has a snapshot, and the snapshot is restored from its cached
form, also when the fields of that form were sorted on the way (`RuleRow.Sound.restored`,
`Rule.Regular.read_sorted`). -/

namespace AccessControl

open Database

theorem Fields.mem_of_get? {fields : Fields} {name : String} {v : Value}
    (h : fields.get? name = some v) :
    (name, v) ∈ fields := by
  induction fields with
  | nil => cases h
  | cons f fields ih =>
      rw [Fields.get?_cons] at h
      split at h
      · next heq =>
          obtain rfl := Option.some.inj h
          exact heq ▸ List.mem_cons_self
      · exact List.mem_cons_of_mem f (ih h)

/-! ### Sources -/

namespace Stores

theorem mapM_text? (keys : List String) : (keys.map Value.text).mapM Value.text? = some keys := by
  induction keys with
  | nil => rfl
  | cons key keys ih => simp [Value.text?, ih]

theorem keyTexts_texts (keys : List String) : keyTexts (Value.texts keys) = .ok keys := by
  simp only [keyTexts, Value.texts, Value.elements, mapM_text?]

theorem readKeys_texts (keys : List String) :
    readKeys (Value.texts keys) = .ok (cleanKeys keys) := by
  rw [readKeys, keyTexts_texts]
  rfl

namespace Sources

theorem read_object {fields : Fields} (hsome : fields ≠ [])
    (hnames : ∀ f ∈ fields, f.1 ∈ Bucket.names) :
    read (.object fields) = readFields fields := by
  have htruthy : (Value.object fields).isTruthy = true := by simpa [Value.isTruthy] using hsome
  have hscalar : (fields.map fun f => Value.text f.1).all Value.isScalar = true := by
    simp [Value.isScalar]
  have hknown : unknownBuckets (fields.map fun f => .text f.1) = [] := by
    rw [unknownBuckets, List.filter_eq_nil_iff]
    intro v hv
    obtain ⟨f, hf, rfl⟩ := List.mem_map.mp hv
    simpa [Value.text?] using hnames f hf
  simp only [read, htruthy, Value.elements, hscalar, hknown, Bool.not_true, Bool.false_eq_true,
    if_false]
  exact if_neg Bool.false_ne_true

/-- Buckets of texts can be read. -/
theorem exists_read_object {fields : Fields} (hsome : fields ≠ [])
    (hnames : ∀ f ∈ fields, f.1 ∈ Bucket.names)
    (hkeys : ∀ f ∈ fields, ∃ keys, f.2 = Value.texts keys) :
    ∃ sources, read (.object fields) = .ok sources := by
  have hbucket : ∀ name, ∃ keys, readKeys ((Fields.get? fields name).getD .null) = .ok keys := by
    intro name
    cases hfound : Fields.get? fields name with
    | none => exact ⟨_, rfl⟩
    | some v =>
        obtain ⟨keys, rfl⟩ := hkeys _ (Fields.mem_of_get? hfound)
        exact ⟨_, readKeys_texts keys⟩
  obtain ⟨path, hpath⟩ := hbucket Bucket.path.name
  obtain ⟨query, hquery⟩ := hbucket Bucket.query.name
  obtain ⟨body, hbody⟩ := hbucket Bucket.body.name
  refine ⟨⟨path, query, body⟩, ?_⟩
  rw [read_object hsome hnames]
  unfold readFields
  dsimp only
  rw [hpath, hquery, hbody]
  rfl

/-- The sources with cleaned keys. -/
def cleaned (s : Sources) : Sources := ⟨cleanKeys s.path, cleanKeys s.query, cleanKeys s.body⟩

theorem readFields_texts {fields : Fields} {s : Sources}
    (h : ∀ b : Bucket, fields.get? b.name = some (Value.texts (s.keys b))) :
    readFields fields = .ok s.cleaned := by
  have hbucket :
      ∀ b : Bucket, readKeys ((fields.get? b.name).getD .null) = .ok (cleanKeys (s.keys b)) := by
    intro b
    rw [h b, Option.getD_some, readKeys_texts]
  unfold readFields
  dsimp only
  rw [hbucket, hbucket, hbucket]
  rfl

theorem read_toValue (s : Sources) : read s.toValue = .ok s.cleaned := by
  rw [toValue, read_object (by simp [Bucket.all]) (by simp [Bucket.all, Bucket.names])]
  exact readFields_texts fun b => by cases b <;> rfl

theorem sorted_toValue (s : Sources) : s.toValue.sorted =
    .object [("body", Value.texts s.body), ("path", Value.texts s.path),
      ("query", Value.texts s.query)] := by
  have htexts : ∀ names : List String, (Value.texts names).sorted = Value.texts names :=
    fun names => (Value.plain_texts names).sorted_eq
  simp +decide only [toValue, Bucket.all, List.map_cons, List.map_nil, Bucket.name, keys,
    Value.sorted,
    Value.sortedFields, Value.insertField, htexts, if_true, if_false]

theorem read_sorted_toValue (s : Sources) : read s.toValue.sorted = .ok s.cleaned := by
  rw [sorted_toValue, read_object (by simp) (by simp [Bucket.all, Bucket.names, Bucket.name])]
  exact readFields_texts fun b => by cases b <;> rfl

theorem plain_sorted (s : Sources) : s.toValue.sorted.Plain := by
  refine Value.plain_sorted_object (by simp [Bucket.all, Bucket.name]) fun f hf => ?_
  obtain ⟨bucket, -, rfl⟩ := List.mem_map.mp hf
  exact (Value.plain_texts _).sorted

end Sources
end Stores

/-! ### Columns -/

namespace RuleText

theorem exists_readNames (given : Option (List String)) :
    ∃ names, Rule.readNames (storedNames given) = .ok names := by
  unfold storedNames
  split
  · exact ⟨[], rfl⟩
  · exact ⟨[], rfl⟩
  · next kept _ _ =>
      cases kept with
      | nil => exact ⟨[], rfl⟩
      | cons name kept => exact ⟨_, rfl⟩

/-- Keys can be read as they are stored. -/
theorem exists_readSources (given : Option SourceKeys) :
    ∃ read, Rule.readSources (storedSources given) = .ok read := by
  unfold storedSources
  split
  · exact ⟨(Stores.Sources.standard, true), rfl⟩
  · next keys =>
      dsimp only
      split
      · exact ⟨(Stores.Sources.standard, true), rfl⟩
      · next hsome =>
          have hnames : ∀ b ∈ [("path", keys.path), ("query", keys.query), ("body", keys.body)],
              b.1 ∈ Stores.Bucket.names := by
            simp [Stores.Bucket.names, Stores.Bucket.all, Stores.Bucket.name]
          have hfields :
              ∀ f ∈ [("path", keys.path), ("query", keys.query),
                ("body", keys.body)].filterMap fun b =>
              b.2.map fun given => (b.1, Value.texts (names given)),
              f.1 ∈ Stores.Bucket.names ∧ ∃ keys, f.2 = Value.texts keys := by
            intro f hf
            obtain ⟨b, hb, hgiven⟩ := List.mem_filterMap.mp hf
            obtain ⟨given, -, rfl⟩ := Option.map_eq_some_iff.mp hgiven
            exact ⟨hnames b hb, _, rfl⟩
          obtain ⟨sources, hread⟩ := Stores.Sources.exists_read_object (by simpa using hsome)
            (fun f hf => (hfields f hf).1) fun f hf => (hfields f hf).2
          exact ⟨(sources, true), by rw [Rule.readSources, hread]⟩

end RuleText

/-- The columns for names of a stored rule. -/
def Database.RuleRow.nameColumns (row : RuleRow) : List Value :=
  [row.rolesAny, row.permissionsAny, row.permissionsAll, row.bypassRoles, row.bypassPermissions]

/-- A sound stored rule: its names and its sources can be read, and its priority is a number that
fits. -/
structure Database.RuleRow.Sound (row : RuleRow) : Prop where
  names : ∀ column ∈ row.nameColumns, ∃ names, Rule.readNames column = .ok names
  sources : ∃ read, Rule.readSources row.sources = .ok read
  priority : ∃ n, row.priority = .int n ∧ fits n

namespace Draft

/-- The columns for names of a draft. -/
def nameColumns (d : Draft) : List Value :=
  [d.rolesAny, d.permissionsAny, d.permissionsAll, d.bypassRoles, d.bypassPermissions]

/-- A sound draft: its names and its sources can be read, and its priority is a number. -/
structure Sound (d : Draft) : Prop where
  names : ∀ column ∈ d.nameColumns, ∃ names, Rule.readNames column = .ok names
  sources : ∃ read, Rule.readSources d.sources = .ok read
  priority : ∃ n, d.priority.getD (.int 0) = .int n

theorem sound_empty : empty.Sound where
  names column hcolumn := by
    obtain rfl : column = .null := by simpa [nameColumns, empty] using hcolumn
    exact ⟨[], rfl⟩
  sources := ⟨(Stores.Sources.standard, true), rfl⟩
  priority := ⟨0, rfl⟩

theorem sound_ofRow {row : RuleRow} (h : row.Sound) : (ofRow row).Sound where
  names := h.names
  sources := h.sources
  priority := by
    obtain ⟨n, hn, -⟩ := h.priority
    exact ⟨n, hn⟩

theorem exists_priority_apply {d : Draft} (h : ∃ n, d.priority.getD (.int 0) = .int n)
    (c : RuleChange) :
    ∃ n, (d.apply c).priority.getD (.int 0) = .int n := by
  unfold Draft.apply
  cases c.priority with
  | none => exact h
  | some given =>
      cases given with
      | none => exact ⟨0, rfl⟩
      | some n => exact ⟨n, rfl⟩

/-- A change brings columns that can be read. -/
theorem Sound.change {d : Draft} (h : d.Sound) (c : RuleChange) : (d.apply c).Sound where
  names := by
    have hnames : ∀ (given : Named (List String)) {column : Value},
        (∃ names, Rule.readNames column = .ok names) →
        ∃ names, Rule.readNames (given.elim column RuleText.storedNames) = .ok names := by
      intro given column hcolumn
      cases given with
      | none => exact hcolumn
      | some given => exact RuleText.exists_readNames given
    have hd := h.names
    simp only [nameColumns, List.forall_mem_cons] at hd ⊢
    exact ⟨hnames _ hd.1, hnames _ hd.2.1, hnames _ hd.2.2.1, hnames _ hd.2.2.2.1,
      hnames _ hd.2.2.2.2.1, hd.2.2.2.2.2⟩
  sources := by
    unfold Draft.apply
    cases c.sources with
    | none => exact h.sources
    | some given => exact RuleText.exists_readSources given
  priority := exists_priority_apply h.priority c

/-- The final form of a draft differs from it in what it is bound to only. -/
theorem columns_settle {d d' : Draft} {patternChanged : Bool}
    (hd : d.settle patternChanged = .ok d') :
    d'.nameColumns = d.nameColumns ∧ d'.sources = d.sources ∧ d'.priority = d.priority := by
  unfold Draft.settle at hd
  split at hd
  · cases hd
  · split at hd
    · obtain rfl := Except.ok.inj hd
      exact ⟨rfl, rfl, rfl⟩
    · split at hd
      · obtain rfl := Except.ok.inj hd
        exact ⟨rfl, rfl, rfl⟩
      · obtain rfl := Except.ok.inj hd
        exact ⟨rfl, rfl, rfl⟩

theorem Sound.settle {d d' : Draft} (h : d.Sound) {patternChanged : Bool}
    (hd : d.settle patternChanged = .ok d') :
    d'.Sound := by
  obtain ⟨hnames, hsources, hpriority⟩ := columns_settle hd
  exact ⟨hnames ▸ h.names, hsources ▸ h.sources, hpriority ▸ h.priority⟩

theorem exists_priority_toRow {d : Draft} (h : ∃ n, d.priority.getD (.int 0) = .int n) {id : ℤ}
    {priority : Value} (hpassed : passed (d.toRow id).priority = .ok priority) :
    ∃ n, (d.toRow id).priority = .int n ∧ fits n := by
  obtain ⟨n, hn⟩ := h
  refine ⟨n, hn, ?_⟩
  rw [show (d.toRow id).priority = .int n from hn] at hpassed
  change (Value.int <$> bound n : Except Failure Value) = .ok priority at hpassed
  unfold bound at hpassed
  split at hpassed
  · assumption
  · cases hpassed

/-- The rule of a sound draft is sound once its priority passes. -/
theorem Sound.toRow {d : Draft} (h : d.Sound) {id : ℤ} {priority : Value}
    (hpassed : passed (d.toRow id).priority = .ok priority) : (d.toRow id).Sound :=
  ⟨h.names, h.sources, exists_priority_toRow h.priority hpassed⟩

end Draft

/-! ### Cached forms -/

namespace Rule

theorem readNames_texts (names : List String) :
    ∃ read, readNames (Value.texts names) = .ok read := by
  cases names with
  | nil => exact ⟨[], rfl⟩
  | cons name names => exact ⟨_, rfl⟩

/-- The entry in the fields of an object. -/
structure Entry.Of (fields : Fields) (e : Entry) : Prop where
  fields_eq : e.fields = fields
  id : fields.get? "id" = some e.id
  rolesAny : readNames ((fields.get? "roles_any").getD .null) = .ok e.rolesAny
  permissionsAny : readNames ((fields.get? "permissions_any").getD .null) = .ok e.permissionsAny
  permissionsAll : readNames ((fields.get? "permissions_all").getD .null) = .ok e.permissionsAll
  bypassRoles :
      readNames ((fields.get? "store_all_access_roles_any").getD .null) = .ok e.bypassRoles
  bypassPermissions :
      readNames ((fields.get? "store_all_access_permissions_any").getD .null) =
      .ok e.bypassPermissions
  sources : readSources ((fields.get? "store_id_sources").getD .null) = .ok (e.sources, e.isSound)

theorem Entry.Of.read {fields : Fields} {e : Entry} (h : Entry.Of fields e) :
    Entry.read (.object fields) = .ok e := by
  have hstep : ∀ {α β : Type} (a : α) (f : α → Except Failure β),
      ((Except.ok a : Except Failure α) >>= f) = f a :=
    fun _ _ => rfl
  obtain ⟨rfl, hid, h₁, h₂, h₃, h₄, h₅, hsources⟩ := h
  unfold Entry.read
  simp only [entryFields, hstep, h₁, h₂, h₃, h₄, h₅, hid, hsources]
  rfl

theorem Entry.Of.rule {fields : Fields} {e : Entry} (h : Entry.Of fields e) :
    Rule.read (.object fields) = e.toRule := by
  rw [Rule.read, h.read]
  rfl

/-- An entry does not depend on the order of its fields, nor on that of its buckets. -/
theorem Entry.Of.congr {f g : Fields} {e : Entry} (h : Entry.Of f e)
    (hget : ∀ name, name ≠ "store_id_sources" → g.get? name = f.get? name)
    (hsources : readSources ((g.get? "store_id_sources").getD .null) =
      readSources ((f.get? "store_id_sources").getD .null)) :
    Entry.Of g { e with fields := g } where
  fields_eq := rfl
  id := (hget _ (by decide)).trans h.id
  rolesAny := by rw [hget _ (by decide), h.rolesAny]
  permissionsAny := by rw [hget _ (by decide), h.permissionsAny]
  permissionsAll := by rw [hget _ (by decide), h.permissionsAll]
  bypassRoles := by rw [hget _ (by decide), h.bypassRoles]
  bypassPermissions := by rw [hget _ (by decide), h.bypassPermissions]
  sources := hsources.trans h.sources

theorem Entry.toRule_congr {e : Entry} {g : Fields}
    (hget : ∀ name, name ≠ "store_id_sources" → g.get? name = e.fields.get? name)
    (hall : g.all (fieldNames.contains ·.1) = e.fields.all (fieldNames.contains ·.1)) :
    Entry.toRule { e with fields := g } = e.toRule := by
  unfold Entry.toRule
  simp +decide only [hget, hall, ne_eq]

/-- The values of a rule that are neither names nor sources. -/
def plainFields (r : Rule) : List Value :=
  [r.id, r.service, r.method, r.priority, r.routeName, r.pattern, r.expression, r.scope, r.matching,
   r.allowsEmpty]

/-- The values of the rule are read back from their JSON text. -/
def Regular (r : Rule) : Prop := ∀ v ∈ r.plainFields, v.Plain

/-- The fields of the cached form of a rule. -/
def cachedFields (r : Rule) : Fields := r.toValue.fields?.getD []

theorem toValue_eq (r : Rule) : r.toValue = .object r.cachedFields := rfl

theorem sorted_toValue (r : Rule) :
    r.toValue.sorted = .object (Value.sortedFields r.cachedFields) := by
  rw [toValue_eq, Value.sorted]

theorem names_cachedFields (r : Rule) : (r.cachedFields.map Prod.fst).Nodup := by
  simp [cachedFields, toValue, Value.fields?]

theorem Regular.plain {r : Rule} (h : r.Regular) {f : String × Value} (hf : f ∈ r.cachedFields) :
    f.2.Plain ∨ f = ("store_id_sources", r.sources.toValue) := by
  simp only [Regular, plainFields, List.forall_mem_cons] at h
  simp only [cachedFields, toValue, Value.fields?, Option.getD_some, List.mem_cons,
    List.not_mem_nil, or_false] at hf
  rcases hf with
    rfl | rfl | rfl | rfl | rfl | rfl | rfl | rfl | rfl | rfl | rfl | rfl | rfl | rfl | rfl | rfl
  all_goals first | exact .inr rfl | exact .inl (Value.plain_texts _) | (left; tauto)

theorem Regular.plain_sorted {r : Rule} (h : r.Regular) : r.toValue.sorted.Plain := by
  refine Value.plain_sorted_object r.names_cachedFields fun f hf => ?_
  rcases h.plain hf with hplain | rfl
  · exact hplain.sorted
  · exact r.sources.plain_sorted

theorem Regular.get?_sorted {r : Rule} (h : r.Regular) {name : String}
    (hname : name ≠ "store_id_sources") :
    Fields.get? (Value.sortedFields r.cachedFields) name = r.cachedFields.get? name := by
  rw [Value.get?_sortedFields r.names_cachedFields]
  cases hfound : r.cachedFields.get? name with
  | none => rfl
  | some v =>
      rcases h.plain (Fields.mem_of_get? hfound) with hplain | heq
      · rw [Option.map_some, hplain.sorted_eq]
      · exact absurd (congrArg Prod.fst heq) hname

theorem exists_entry (r : Rule) : ∃ e, Entry.Of r.cachedFields e := by
  obtain ⟨rolesAny, h₁⟩ := readNames_texts r.rolesAny
  obtain ⟨permissionsAny, h₂⟩ := readNames_texts r.permissionsAny
  obtain ⟨permissionsAll, h₃⟩ := readNames_texts r.permissionsAll
  obtain ⟨bypassRoles, h₄⟩ := readNames_texts r.bypassRoles
  obtain ⟨bypassPermissions, h₅⟩ := readNames_texts r.bypassPermissions
  refine ⟨⟨r.cachedFields, r.id, r.sources.cleaned, true, rolesAny, permissionsAny, permissionsAll,
    bypassRoles,
    bypassPermissions⟩, ?_⟩
  constructor
  all_goals simp [cachedFields, toValue, Value.fields?, Fields.get?_cons, h₁, h₂, h₃, h₄, h₅,
    readSources,
    Stores.Sources.read_toValue]

theorem exists_toRule {r : Rule} {e : Entry} (he : e.fields = r.cachedFields) :
    ∃ rule, e.toRule = .ok rule := by
  have hservice : r.cachedFields.get? "service" = some r.service := by
    simp [cachedFields, toValue, Value.fields?, Fields.get?_cons]
  have hmethod : r.cachedFields.get? "method" = some r.method := by
    simp [cachedFields, toValue, Value.fields?, Fields.get?_cons]
  have hall : r.cachedFields.all (fieldNames.contains ·.1) = true := by
    simp [cachedFields, toValue, Value.fields?, fieldNames]
  unfold Entry.toRule
  simp only [he, hservice, hmethod, hall]
  exact ⟨_, rfl⟩

theorem exists_read (r : Rule) : ∃ rule, Rule.read r.toValue = .ok rule := by
  obtain ⟨e, he⟩ := exists_entry r
  obtain ⟨rule, hrule⟩ := exists_toRule he.fields_eq
  exact ⟨rule, he.rule.trans hrule⟩

/-- A rule is read from its cached form as from the form whose fields are sorted. -/
theorem Regular.read_sorted {r : Rule} (h : r.Regular) :
    Rule.read r.toValue.sorted = Rule.read r.toValue := by
  have hsources :
      readSources
      ((Fields.get? (Value.sortedFields r.cachedFields) "store_id_sources").getD .null) =
      readSources ((r.cachedFields.get? "store_id_sources").getD .null) := by
    have hfound : r.cachedFields.get? "store_id_sources" = some r.sources.toValue := by
      simp [cachedFields, toValue, Value.fields?, Fields.get?_cons]
    rw [Value.get?_sortedFields r.names_cachedFields, hfound, Option.map_some, Option.getD_some,
      Option.getD_some, readSources, readSources, Stores.Sources.read_sorted_toValue,
      Stores.Sources.read_toValue]
  have hall : (Value.sortedFields r.cachedFields).all (fieldNames.contains ·.1) =
      r.cachedFields.all (fieldNames.contains ·.1) := by
    have heq := (Value.names_sortedFields r.cachedFields).all_eq (f := (fieldNames.contains ·))
    rwa [List.all_map, List.all_map] at heq
  obtain ⟨e, he⟩ := exists_entry r
  have hget : ∀ name, name ≠ "store_id_sources" →
      Fields.get? (Value.sortedFields r.cachedFields) name = e.fields.get? name := by
    intro name hname
    rw [he.fields_eq, h.get?_sorted hname]
  have hentry := he.congr (fun name hname => h.get?_sorted hname) hsources
  rw [sorted_toValue, hentry.rule, toValue_eq, he.rule]
  exact Entry.toRule_congr hget (hall.trans (by rw [he.fields_eq]))

theorem mapM_read_sorted {rules : List Rule} (h : ∀ r ∈ rules, r.Regular) :
    (rules.map fun r => r.toValue.sorted).mapM Rule.read =
      (rules.map Rule.toValue).mapM Rule.read := by
  induction rules with
  | nil => rw [List.map_nil, List.map_nil]
  | cons r rules ih =>
      have hrest := ih fun r' hr' => h r' (List.mem_cons_of_mem r hr')
      simp only [List.map_cons, List.mapM_cons, (h r List.mem_cons_self).read_sorted, hrest]

end Rule

/-! ### Restored rules -/

namespace Database

theorem short_of_fits {n : ℤ} (h : fits n) : Text.Short n := by
  have hbounds : -0x8000000000000000 ≤ n ∧ n < 0x8000000000000000 := by simpa [fits] using h
  have hpow : 10 ^ 19 ≤ 10 ^ Text.digitLimit := Nat.pow_le_pow_right (by decide) (by decide)
  refine lt_of_lt_of_le ?_ hpow
  omega

/-- A stored rule has a snapshot just when its names and its sources can be read. -/
theorem RuleRow.exists_snapshot_iff {row : RuleRow} : (∃ r, row.snapshot = .ok r) ↔
    (∀ column ∈ row.nameColumns, ∃ names, Rule.readNames column = .ok names) ∧
      ∃ read, Rule.readSources row.sources = .ok read := by
  simp only [nameColumns, List.forall_mem_cons]
  constructor
  · rintro ⟨r, h⟩
    have reads := reads_of_snapshot h
    obtain ⟨isSound, hsources⟩ := reads.sources
    exact ⟨⟨⟨_, reads.rolesAny⟩, ⟨_, reads.permissionsAny⟩, ⟨_, reads.permissionsAll⟩,
      ⟨_, reads.bypassRoles⟩,
      ⟨_, reads.bypassPermissions⟩, by simp⟩, _, hsources⟩
  · rintro ⟨⟨⟨rolesAny, h₁⟩, ⟨permissionsAny, h₂⟩, ⟨permissionsAll, h₃⟩, ⟨bypassRoles, h₄⟩,
      ⟨bypassPermissions, h₅⟩, -⟩,
      ⟨sources, isSound⟩, hsources⟩
    unfold RuleRow.snapshot RuleRow.toRule
    rw [hsources, h₁, h₂, h₃, h₄, h₅]
    exact ⟨_, rfl⟩

theorem RuleRow.sound_of_snapshot {row : RuleRow} (h : ∃ r, row.snapshot = .ok r)
    (hpriority : ∃ n, row.priority = .int n ∧ fits n) : row.Sound :=
  ⟨(exists_snapshot_iff.mp h).1, (exists_snapshot_iff.mp h).2, hpriority⟩

namespace RuleRow.Sound

variable {row : RuleRow}

theorem snapshot (h : row.Sound) : ∃ r, row.snapshot = .ok r :=
  exists_snapshot_iff.mpr ⟨h.names, h.sources⟩

/-- A sound rule is restored from its snapshot. -/
theorem restored (h : row.Sound) :
    ∃ r rule, row.snapshot = .ok r ∧ Rule.read r.toValue = .ok rule ∧ row.restored = .ok rule := by
  obtain ⟨r, hr⟩ := h.snapshot
  obtain ⟨rule, hrule⟩ := r.exists_read
  refine ⟨r, rule, hr, hrule, ?_⟩
  rw [RuleRow.restored, hr]
  exact hrule

/-- The snapshot of a sound rule with a short number is read back from its JSON text. -/
theorem regular (h : row.Sound) (hid : Text.Short row.id) {r : Rule} (hr : row.snapshot = .ok r) :
    r.Regular := by
  have reads := reads_of_snapshot hr
  obtain ⟨n, hn, hfits⟩ := h.priority
  have hgiven : ∀ column : Option String, (givenText column).Plain := by
    intro column
    unfold givenText
    cases column.filter (· != "") with
    | none => exact .null
    | some s => exact .text s
  simp only [Rule.Regular, Rule.plainFields, List.forall_mem_cons, reads.id, reads.service,
    reads.method, reads.priority, reads.routeName, reads.pattern, reads.expression, reads.scope,
    reads.matching, reads.allowsEmpty, hn]
  exact ⟨.int _ hid, .text _, .text _, .int n (short_of_fits hfits), hgiven _, hgiven _, hgiven _,
    .text _, .text _, .bool _, by simp⟩

end RuleRow.Sound

/-- Rules that have no snapshots are not restored. -/
theorem mapM_restored_error {rows : List RuleRow} {e : Failure}
    (h : rows.mapM RuleRow.snapshot = .error e) :
    rows.mapM RuleRow.restored = .error e := by
  induction rows with
  | nil => cases h
  | cons row rows ih =>
      rw [List.mapM_cons] at h ⊢
      unfold RuleRow.restored
      cases hr : row.snapshot with
      | error e' =>
          rw [hr] at h
          exact h
      | ok r =>
          rw [hr] at h
          obtain ⟨rule, hrule⟩ := r.exists_read
          have hfirst : ((Except.ok r : Except Failure Rule) >>= fun r => Rule.read r.toValue) =
              .ok rule := hrule
          cases hrs : rows.mapM RuleRow.snapshot with
          | error e' =>
              rw [hrs] at h
              obtain rfl := Except.error.inj h
              rw [hfirst]
              exact congrArg (fun rest => Except.ok rule >>= fun r => rest >>= fun rs =>
                pure (r :: rs)) (ih hrs)
          | ok rs =>
              rw [hrs] at h
              cases h

/-- Sound rules are restored from their cached forms, each from its own. -/
theorem restored_rows {rows : List RuleRow} (h : ∀ row ∈ rows, row.Sound) : ∃ snapshots rules,
    rows.mapM RuleRow.snapshot = .ok snapshots ∧
      (snapshots.map Rule.toValue).mapM Rule.read = .ok rules ∧
      rows.mapM RuleRow.restored = .ok rules := by
  induction rows with
  | nil => exact ⟨[], [], rfl, rfl, rfl⟩
  | cons row rows ih =>
      obtain ⟨r, rule, hr, hrule, hrestored⟩ := (h row List.mem_cons_self).restored
      obtain ⟨rs, rules, hrs, hrules, hall⟩ :=
        ih fun row' hrow' => h row' (List.mem_cons_of_mem row hrow')
      refine ⟨r :: rs, rule :: rules, ?_, ?_, ?_⟩
      · rw [List.mapM_cons, hr, hrs]
        rfl
      · rw [List.map_cons, List.mapM_cons, hrule, hrules]
        rfl
      · rw [List.mapM_cons, hrestored, hall]
        rfl

end Database
end AccessControl
