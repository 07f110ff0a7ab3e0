import AccessControl.Proofs.Rule.RoundTrip
import Mathlib

/-! # Stored rules whose columns hold any value

Whatever the column for sources holds, reading it fails in a way that is caught, but for one: a list
of nothing but names of buckets passes for a configuration until its buckets are asked for
(`Sources.contained_read`, `Sources.read_listsBuckets`).  A column for names fails when it is
something that cannot be walked through.  So a stored rule has a snapshot just when it is `Readable`
(`RuleRow.snapshot_iff`).  The snapshot then says what the columns mean: sources that mean nothing
search nowhere, and a column that holds nothing names nothing (`RuleRow.Described`). -/

namespace AccessControl

open Database

/-! ### Failures that are caught -/

/-- A failure for which sources that cannot be read are given up. -/
def Failure.IsCaught (e : Failure) : Prop := (∃ text, e = .type text) ∨ ∃ text, e = .value text

/-- All failures of a reading are caught. -/
def Contained {α : Type} (x : Except Failure α) : Prop := ∀ e, x = .error e → e.IsCaught

section contained

variable {α β : Type}

theorem contained_ok (a : α) : Contained (.ok a : Except Failure α) := nofun

theorem contained_error {e : Failure} (he : e.IsCaught) : Contained (.error e : Except Failure α) :=
  fun _ heq => Except.error.inj heq ▸ he

theorem contained_type (text : Option String) :
    Contained (.error (.type text) : Except Failure α) :=
  contained_error (.inl ⟨text, rfl⟩)

theorem contained_bind {x : Except Failure α} {f : α → Except Failure β} (hx : Contained x)
    (hf : ∀ a, Contained (f a)) : Contained (x >>= f) := by
  cases x with
  | error e => exact contained_error (hx e rfl)
  | ok a => exact hf a

theorem toOption_bind (x : Except Failure α) (f : α → Except Failure β) :
    (x >>= f).toOption = x.toOption.bind fun a => (f a).toOption := by
  cases x <;> rfl

theorem toOption_map (f : α → β) (x : Except Failure α) :
    (x.map f).toOption = x.toOption.map f := by
  cases x <;> rfl

end contained

/-! ### Sources -/

namespace Stores

/-- A list that names some buckets and holds nothing else. -/
def ListsBuckets (data : Value) : Prop :=
  ∃ items, items ≠ [] ∧ data = .list items ∧ ∀ v ∈ items, ∃ b : Bucket, v = .text b.name

/-- No field of the configuration is an object itself. -/
def Flat (data : Value) : Prop :=
  ∀ fields, data = .object fields → ∀ f ∈ fields, ∀ nested, f.2 ≠ .object nested

/-- The keys that a value gives a bucket: it is null, one text, or a list of texts. -/
def givenKeys : Value → Option (List String)
  | .null => some []
  | .text key => some [key]
  | .list items => items.mapM Value.text?
  | _ => none

theorem contained_readKeys (v : Value) : Contained (readKeys v) := by
  have hkeys : Contained (keyTexts v) := by
    unfold keyTexts
    split
    · exact contained_ok _
    · exact contained_ok _
    · split
      · exact contained_type _
      · split
        · exact contained_type _
        · exact contained_ok _
  intro e he
  rw [readKeys] at he
  cases hread : keyTexts v with
  | error e' =>
      rw [hread] at he
      exact Except.error.inj he ▸ hkeys e' hread
  | ok keys =>
      rw [hread] at he
      cases he

theorem toOption_readKeys {v : Value} (hflat : ∀ nested, v ≠ .object nested) :
    (readKeys v).toOption = (givenKeys v).map cleanKeys := by
  rw [readKeys, toOption_map]
  refine congrArg _ ?_
  cases v with
  | object nested => exact absurd rfl (hflat nested)
  | list items =>
      simp only [keyTexts, Value.elements, givenKeys]
      cases items.mapM Value.text? <;> rfl
  | _ => rfl

theorem bucketName_of_contains {name : String} (h : Bucket.names.contains name = true) :
    ∃ b : Bucket, name = b.name := by
  have hmem : name ∈ Bucket.all.map Bucket.name := List.contains_iff_mem.mp h
  obtain ⟨b, -, hb⟩ := List.mem_map.mp hmem
  exact ⟨b, hb.symm⟩

theorem not_contains_singleton (c : Char) : Bucket.names.contains (String.singleton c) = false := by
  by_contra hcontains
  obtain ⟨b, hb⟩ := bucketName_of_contains (by simpa using hcontains)
  have hlength := congrArg String.length hb
  rw [String.length_singleton] at hlength
  cases b <;> exact absurd hlength (by decide)

namespace Sources

/-- The sources that the fields of an object mean, if each gives its bucket keys. -/
def meantFields (fields : Fields) : Option Sources := do
  let bucket (b : Bucket) : Option (List String) :=
    (givenKeys ((fields.get? b.name).getD .null)).map cleanKeys
  let path ← bucket .path
  let query ← bucket .query
  let body ← bucket .body
  return ⟨path, query, body⟩

/-- What a configuration means: nothing at all means the standard sources, and an object what its
fields mean, if these are buckets.  Anything else means nothing. -/
def meant (data : Value) : Option Sources :=
  if !data.isTruthy then some standard
  else
    match data with
    | .object fields =>
        if fields.all fun f => Bucket.names.contains f.1 then meantFields fields else Option.none
    | _ => Option.none

theorem isCaught_unknownFailure (names : List Value) : (unknownFailure names).IsCaught := by
  unfold unknownFailure
  split
  · exact .inr ⟨_, rfl⟩
  · exact .inl ⟨_, rfl⟩

theorem unknownBuckets_eq_nil {names : List Value} :
    unknownBuckets names = [] ↔ ∀ v ∈ names, ∃ b : Bucket, v = .text b.name := by
  rw [unknownBuckets, List.filter_eq_nil_iff]
  refine forall₂_congr fun v _ => ⟨fun h => ?_, ?_⟩
  · cases v with
    | text name =>
        obtain ⟨b, rfl⟩ := bucketName_of_contains (by simpa [Value.text?] using h)
        exact ⟨b, rfl⟩
    | _ => simp [Value.text?] at h
  · rintro ⟨b, rfl⟩
    cases b <;> decide

theorem known_of_not {names : List Value} (h : ¬(unknownBuckets names != []) = true) :
    ∀ v ∈ names, ∃ b : Bucket, v = .text b.name := by
  refine unknownBuckets_eq_nil.mp ?_
  cases hunknown : unknownBuckets names with
  | nil => rfl
  | cons v vs => exact absurd (by rw [hunknown]; rfl) h

theorem contained_readFields (fields : Fields) : Contained (readFields fields) :=
  contained_bind (contained_readKeys _) fun _ => contained_bind (contained_readKeys _) fun _ =>
    contained_bind (contained_readKeys _) fun _ => contained_ok _

/-- A list of names of buckets is taken for an object, and is none. -/
theorem read_listsBuckets {data : Value} (h : ListsBuckets data) : read data = .error .shape := by
  obtain ⟨items, hsome, rfl, hbuckets⟩ := h
  have htruthy : (Value.list items).isTruthy = true := by simpa [Value.isTruthy] using hsome
  have hscalar : items.all Value.isScalar = true := by
    refine List.all_eq_true.mpr fun v hv => ?_
    obtain ⟨b, rfl⟩ := hbuckets v hv
    rfl
  simp only [read, htruthy, Value.elements, hscalar, unknownBuckets_eq_nil.mpr hbuckets,
    Bool.not_true, Bool.false_eq_true, if_false]
  exact if_neg Bool.false_ne_true

/-- Any other configuration is read, or its failure is caught. -/
theorem contained_read {data : Value} (h : ¬ListsBuckets data) : Contained (read data) := by
  unfold read
  split
  · exact contained_ok _
  · next htruthy =>
      cases helements : data.elements with
      | none => exact contained_type _
      | some names =>
          dsimp only
          split
          · exact contained_type _
          · split
            · exact contained_error (isCaught_unknownFailure _)
            · next hknown =>
                split
                · exact contained_readFields _
                · next hobject =>
                    refine absurd (known_of_not hknown) fun hbuckets => ?_
                    cases data with
                    | object fields => exact hobject fields rfl
                    | list items =>
                        obtain rfl := Option.some.inj helements
                        exact h ⟨items,
                          fun hnil => by simp [hnil, Value.isTruthy] at htruthy, rfl, hbuckets⟩
                    | text s =>
                        obtain rfl := Option.some.inj helements
                        cases hs : s.toList with
                        | nil => simp [Value.isTruthy, String.toList_eq_nil_iff.mp hs] at htruthy
                        | cons c cs =>
                            obtain ⟨b, hb⟩ := hbuckets (.text (String.singleton c)) (by simp [hs])
                            have hno := not_contains_singleton c
                            rw [Value.text.inj hb] at hno
                            cases b <;> exact absurd hno (by decide)
                    | _ => cases helements

theorem toOption_readFields {fields : Fields} (hflat : Flat (.object fields)) :
    (readFields fields).toOption = meantFields fields := by
  have hbucket : ∀ b : Bucket, (readKeys ((fields.get? b.name).getD .null)).toOption =
      (givenKeys ((fields.get? b.name).getD .null)).map cleanKeys := by
    refine fun b => toOption_readKeys fun nested heq => ?_
    cases hfound : fields.get? b.name with
    | none => simp [hfound] at heq
    | some v =>
        exact hflat fields rfl _ (Fields.mem_of_get? hfound) nested (by simpa [hfound] using heq)
  unfold readFields meantFields
  simp only [toOption_bind, hbucket]
  rfl

theorem toOption_read_of_ne {data : Value} (htruthy : data.isTruthy = true)
    (hobject : ∀ fields, data ≠ .object fields) :
    (read data).toOption = Option.none := by
  unfold read
  rw [htruthy, if_neg (by decide)]
  cases data.elements with
  | none => rfl
  | some names =>
      dsimp only
      split
      · rfl
      · split
        · rfl
        · split
          · next fields => exact absurd rfl (hobject fields)
          · rfl

theorem toOption_read_unknown {fields : Fields}
    (h : (fields.all fun f => Bucket.names.contains f.1) = false) :
    (read (.object fields)).toOption = Option.none := by
  have htruthy : (Value.object fields).isTruthy = true := by
    cases fields with
    | nil => cases h
    | cons f fields => rfl
  have hscalar : (fields.map fun f => Value.text f.1).all Value.isScalar = true := by
    simp [Value.isScalar]
  have hunknown : (unknownBuckets (fields.map fun f => Value.text f.1) != []) = true := by
    by_contra hknown
    obtain ⟨f, hf, hno⟩ := List.all_eq_false.mp h
    obtain ⟨b, hb⟩ := known_of_not hknown (.text f.1) (List.mem_map_of_mem hf)
    rw [Value.text.inj hb] at hno
    cases b <;> exact hno (by decide)
  simp only [read, htruthy, Value.elements, hscalar, hunknown, Bool.not_true, Bool.false_eq_true,
    if_false, if_true]
  rfl

/-- Without objects among its fields, a configuration is read as what it means. -/
theorem toOption_read {data : Value} (hflat : Flat data) : (read data).toOption = meant data := by
  cases htruthy : data.isTruthy with
  | false =>
      simp only [meant, read, htruthy]
      rfl
  | true =>
      simp only [meant, htruthy, Bool.not_true, Bool.false_eq_true, if_false]
      split
      · next fields =>
          split
          · next hknown =>
              have hnames : ∀ f ∈ fields, f.1 ∈ Bucket.names := by simpa using hknown
              rw [read_object (by simpa [Value.isTruthy] using htruthy) hnames,
                toOption_readFields hflat]
          · next hunknown => exact toOption_read_unknown (by simpa using hunknown)
      · next hobject => exact toOption_read_of_ne htruthy hobject

end Sources
end Stores

/-! ### Columns -/

namespace Rule

theorem exists_readSources_iff {data : Value} :
    (∃ read, readSources data = .ok read) ↔ ¬Stores.ListsBuckets data := by
  constructor
  · rintro ⟨found, hfound⟩ hlists
    rw [readSources, Stores.Sources.read_listsBuckets hlists] at hfound
    cases hfound
  · intro hlists
    have hcontained := Stores.Sources.contained_read hlists
    unfold readSources
    cases hread : Stores.Sources.read data with
    | ok sources => exact ⟨_, rfl⟩
    | error e => obtain ⟨text, rfl⟩ | ⟨text, rfl⟩ := hcontained e hread <;> exact ⟨_, rfl⟩

/-- Sources that cannot be read search nowhere. -/
theorem sources_of_readSources {data : Value} {sources : Stores.Sources} {isSound : Bool}
    (h : readSources data = .ok (sources, isSound)) :
    sources = (Stores.Sources.read data).toOption.getD Stores.Sources.none := by
  unfold readSources at h
  split at h
  · next hread =>
      rw [hread, ← (Prod.mk.inj (Except.ok.inj h)).1]
      rfl
  · next hread =>
      rw [hread, ← (Prod.mk.inj (Except.ok.inj h)).1]
      rfl
  · next hread =>
      rw [hread, ← (Prod.mk.inj (Except.ok.inj h)).1]
      rfl
  · cases h

theorem exists_readNames_iff {column : Value} :
    (∃ names, readNames column = .ok names) ↔
      (column.isTruthy = true → column.elements.isSome = true) := by
  unfold readNames
  cases htruthy : column.isTruthy with
  | false => simp
  | true => cases column.elements <;> simp

/-- What a column names: the texts of the items of a list, and nothing when it is nothing at all. -/
structure Lists (column : Value) (names : List String) : Prop where
  items : ∀ items, column = .list items → names = namesOf items
  nothing : column.isTruthy = false → names = []

theorem lists_of_readNames {column : Value} {names : List String}
    (h : readNames column = .ok names) :
    Lists column names := by
  unfold readNames at h
  constructor
  · rintro items rfl
    cases items with
    | nil => exact (Except.ok.inj h).symm
    | cons v vs => exact (Except.ok.inj h).symm
  · intro hfalsy
    rw [hfalsy] at h
    exact (Except.ok.inj h).symm

end Rule

/-! ### Stored rules -/

namespace Database.RuleRow

/-- A stored rule whose columns for names can be walked through, when they are anything, and whose
sources are no list of names of buckets. -/
structure Readable (row : RuleRow) : Prop where
  names : ∀ column ∈ row.nameColumns, column.isTruthy = true → column.elements.isSome = true
  sources : ¬Stores.ListsBuckets row.sources

/-- A rule that says what a stored one means: sources that mean nothing search nowhere, and what
holds no names names nothing. -/
structure Described (row : RuleRow) (r : Rule) : Prop where
  reads : row.Reads r
  sources : Stores.Flat row.sources → r.sources = (Stores.Sources.meant row.sources).getD .none
  rolesAny : Rule.Lists row.rolesAny r.rolesAny
  permissionsAny : Rule.Lists row.permissionsAny r.permissionsAny
  permissionsAll : Rule.Lists row.permissionsAll r.permissionsAll
  bypassRoles : Rule.Lists row.bypassRoles r.bypassRoles
  bypassPermissions : Rule.Lists row.bypassPermissions r.bypassPermissions

variable {row : RuleRow}

/-- A stored rule has a snapshot just when it is readable. -/
theorem snapshot_iff : (∃ r, row.snapshot = .ok r) ↔ row.Readable := by
  rw [exists_snapshot_iff, Rule.exists_readSources_iff]
  simp only [Rule.exists_readNames_iff]
  exact ⟨fun h => ⟨h.1, h.2⟩, fun h => ⟨h.names, h.sources⟩⟩

theorem described_of_snapshot {r : Rule} (h : row.snapshot = .ok r) : row.Described r := by
  have reads := reads_of_snapshot h
  obtain ⟨isSound, hsources⟩ := reads.sources
  refine ⟨reads, fun hflat => ?_, Rule.lists_of_readNames reads.rolesAny,
    Rule.lists_of_readNames reads.permissionsAny, Rule.lists_of_readNames reads.permissionsAll,
    Rule.lists_of_readNames reads.bypassRoles, Rule.lists_of_readNames reads.bypassPermissions⟩
  rw [← Stores.Sources.toOption_read hflat]
  exact Rule.sources_of_readSources hsources

theorem restored_of_snapshot {r : Rule} (h : row.snapshot = .ok r) :
    row.restored = .ok { r with sources := r.sources.cleaned } := by
  rw [restored, h]
  exact (Rule.settled_of_snapshot h).read_toValue

theorem mapM_restored_readable {rows : List RuleRow} (h : ∀ row ∈ rows, row.Readable) : ∃ rules,
    rows.mapM restored = .ok (rules.map fun r => { r with sources := r.sources.cleaned }) ∧
      List.Forall₂ (fun row r => row.snapshot = .ok r ∧ row.Described r) rows rules := by
  induction rows with
  | nil => exact ⟨[], rfl, .nil⟩
  | cons row rows ih =>
      obtain ⟨rules, hrules, hall⟩ := ih fun row' hrow' => h row' (List.mem_cons_of_mem row hrow')
      obtain ⟨r, hr⟩ := snapshot_iff.mpr (h row List.mem_cons_self)
      refine ⟨r :: rules, ?_, .cons ⟨hr, described_of_snapshot hr⟩ hall⟩
      rw [List.mapM_cons, restored_of_snapshot hr, hrules]
      rfl

theorem mapM_restored_unreadable {rows : List RuleRow} (hrow : row ∈ rows) (h : ¬row.Readable) :
    ∃ e, rows.mapM restored = .error e := by
  cases hrules : rows.mapM restored with
  | error e => exact ⟨e, rfl⟩
  | ok rules =>
      obtain ⟨rule, -, hrule⟩ := exists_of_mapM hrules hrow
      obtain ⟨r, hr, -⟩ := bind_eq_ok hrule
      exact absurd (snapshot_iff.mp ⟨r, hr⟩) h

end Database.RuleRow
end AccessControl
