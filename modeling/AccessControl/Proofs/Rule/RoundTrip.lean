import AccessControl.Proofs.Rule.Sound
import AccessControl.Proofs.Rule.WellFormed
import Mathlib

/-! # Rules and sources read from their stored forms

The names of a rule that was read or taken from a row are read back as they are
(`Settled.read_toValue`).  Its keys are not: a key is trimmed of white space first and of dots then,
so white space that stood behind a dot is at an end of the cleaned key, and the next reading takes
it away.  Cleaned keys are cleaned to themselves just when all of them are trimmed
(`Sources.cleaned_cleaned`), and this is what decides whether a rule is given back by its stored
form, with or without a JSON text in between (`readBack_iff_trimmed`). -/

namespace AccessControl

open Database

/-! ### Trimmed texts -/

namespace Text

theorem infix_of_trim (p : Char → Bool) (cs : List Char) : trim p cs <:+: cs :=
  (List.rdropWhile_prefix p _).isInfix.trans (List.dropWhile_suffix p).isInfix

theorem length_stripOf_le (p : Char → Bool) (s : String) : (stripOf p s).length ≤ s.length := by
  have h := (infix_of_trim p s.toList).length_le
  rwa [stripOf, ← String.length_toList, ← String.length_toList, String.toList_ofList]

theorem stripOf_eq_self {p : Char → Bool} {s : String} (h : s.length ≤ (stripOf p s).length) :
    stripOf p s = s := by
  rw [← String.length_toList, ← String.length_toList, stripOf, String.toList_ofList] at h
  have heq :=
    (infix_of_trim p s.toList).eq_of_length (le_antisymm (infix_of_trim p s.toList).length_le h)
  rw [stripOf, heq, String.ofList_toList]

theorem stripOf_stripOf (p : Char → Bool) (s : String) : stripOf p (stripOf p s) = stripOf p s := by
  simp only [stripOf, String.toList_ofList, trim_trim]

end Text

/-! ### Keys -/

namespace Stores

open Text (stripOf stripOf_stripOf stripOf_eq_self length_stripOf_le)

theorem cleanKey_cleanKey (key : String) :
    cleanKey (cleanKey key) = cleanKey key ↔ Text.strip (cleanKey key) = cleanKey key := by
  constructor
  · intro h
    refine stripOf_eq_self ?_
    calc (cleanKey key).length = (cleanKey (cleanKey key)).length := by rw [h]
      _ ≤ (Text.strip (cleanKey key)).length := length_stripOf_le _ _
  · intro h
    rw [cleanKey, h, cleanKey, stripOf_stripOf]

theorem mem_cleanKeys {key : String} {keys : List String} (h : key ∈ cleanKeys keys) :
    key ≠ "" ∧ ∃ given ∈ keys, cleanKey given = key := by
  rw [cleanKeys, mem_distinct, List.mem_filter, List.mem_map] at h
  exact ⟨by simpa using h.2, h.1⟩

theorem cleanKeys_eq_self_iff {keys : List String} :
    cleanKeys keys = keys ↔ keys.Nodup ∧ ∀ key ∈ keys, key ≠ "" ∧ cleanKey key = key := by
  constructor
  · intro h
    have hmap : keys.map cleanKey = keys := by
      have hsub : (cleanKeys keys).Sublist (keys.map cleanKey) :=
        (distinct_sublist _).trans List.filter_sublist
      rw [h] at hsub
      exact (hsub.eq_of_length (List.length_map cleanKey).symm).symm
    refine ⟨h ▸ nodup_distinct _, fun key hkey => ⟨(mem_cleanKeys (h.symm ▸ hkey)).1, ?_⟩⟩
    exact List.map_eq_map_iff.mp (hmap.trans (List.map_id keys).symm) key hkey
  · rintro ⟨hnodup, hkeys⟩
    have hmap : keys.map cleanKey = keys :=
      (List.map_congr_left fun key hkey => (hkeys key hkey).2).trans (List.map_id keys)
    have hfilter : keys.filter (· != "") = keys :=
      List.filter_eq_self.mpr fun key hkey => by simpa using (hkeys key hkey).1
    rw [cleanKeys, hmap, hfilter, distinct_of_nodup hnodup]

theorem cleanKeys_cleanKeys (keys : List String) :
    cleanKeys (cleanKeys keys) = cleanKeys keys ↔ ∀ key ∈ cleanKeys keys, Text.Trimmed key := by
  rw [cleanKeys_eq_self_iff]
  constructor
  · rintro ⟨-, h⟩ key hkey
    obtain ⟨hne, given, -, rfl⟩ := mem_cleanKeys hkey
    exact ⟨hne, (cleanKey_cleanKey given).mp (h _ hkey).2⟩
  · intro h
    refine ⟨nodup_distinct _, fun key hkey => ?_⟩
    obtain ⟨hne, given, -, rfl⟩ := mem_cleanKeys hkey
    exact ⟨hne, (cleanKey_cleanKey given).mpr (h _ hkey).2⟩

namespace Sources

/-- No key has white space at its ends. -/
def Trimmed (s : Sources) : Prop := ∀ bucket, ∀ key ∈ s.keys bucket, Text.Trimmed key

theorem cleaned_cleaned (s : Sources) : s.cleaned.cleaned = s.cleaned ↔ s.cleaned.Trimmed := by
  have hbuckets : s.cleaned.cleaned = s.cleaned ↔
      ∀ bucket, cleanKeys (s.cleaned.keys bucket) = s.cleaned.keys bucket := by
    rw [Sources.mk.injEq]
    exact ⟨fun ⟨hpath, hquery, hbody⟩ bucket => by cases bucket <;> assumption,
      fun h => ⟨h .path, h .query, h .body⟩⟩
  have hkeys : ∀ bucket, s.cleaned.keys bucket = cleanKeys (s.keys bucket) := by
    intro bucket
    cases bucket <;> rfl
  rw [hbuckets]
  refine forall_congr' fun bucket => ?_
  rw [hkeys, cleanKeys_cleanKeys]

/-- The keys that a configuration gives the buckets of an object are cleaned. -/
theorem cleaned_of_readFields {fields : Fields} {s : Sources} (h : readFields fields = .ok s) :
    ∃ given : Sources, s = given.cleaned := by
  have hbucket : ∀ {v : Value} {keys : List String}, readKeys v = .ok keys →
      ∃ given, keys = cleanKeys given := by
    intro v keys hkeys
    unfold readKeys at hkeys
    cases htexts : keyTexts v with
    | error e =>
        rw [htexts] at hkeys
        cases hkeys
    | ok given =>
        rw [htexts] at hkeys
        exact ⟨given, (Except.ok.inj hkeys).symm⟩
  unfold readFields at h
  obtain ⟨path, hpath, h⟩ := bind_eq_ok h
  obtain ⟨query, hquery, h⟩ := bind_eq_ok h
  obtain ⟨body, hbody, h⟩ := bind_eq_ok h
  obtain ⟨path, rfl⟩ := hbucket hpath
  obtain ⟨query, rfl⟩ := hbucket hquery
  obtain ⟨body, rfl⟩ := hbucket hbody
  exact ⟨⟨path, query, body⟩, (Except.ok.inj h).symm⟩

/-- Sources that are read have cleaned keys. -/
theorem cleaned_of_read {data : Value} {s : Sources} (h : read data = .ok s) :
    ∃ given : Sources, s = given.cleaned := by
  unfold read at h
  split at h
  · obtain rfl := Except.ok.inj h
    exact ⟨standard, by decide +kernel⟩
  · split at h
    · cases h
    · split at h
      · cases h
      · split at h
        · cases h
        · split at h
          · exact cleaned_of_readFields h
          · cases h

theorem read_toValue_iff {data : Value} {s : Sources} (h : read data = .ok s) :
    read s.toValue = .ok s ↔ s.Trimmed := by
  obtain ⟨given, rfl⟩ := cleaned_of_read h
  rw [read_toValue, Except.ok.injEq, cleaned_cleaned]

end Sources
end Stores

/-! ### Names -/

namespace Rule

/-- Names without repeats and blank ones: those that reading leaves as they are. -/
def CleanNames (names : List String) : Prop :=
  names.Nodup ∧ ∀ name ∈ names, Text.isBlankText name = false

theorem cleanNames_of_read {v : Value} {names : List String} (h : readNames v = .ok names) :
    CleanNames names := by
  unfold readNames at h
  split at h
  · obtain rfl := Except.ok.inj h
    exact ⟨.nil, by simp⟩
  · split at h
    · obtain rfl := Except.ok.inj h
      refine ⟨nodup_distinct _, fun name hname => ?_⟩
      rw [namesOf, mem_distinct, List.mem_filter] at hname
      simpa using hname.2
    · cases h

theorem CleanNames.read {names : List String} (h : CleanNames names) :
    readNames (Value.texts names) = .ok names := by
  cases names with
  | nil => rfl
  | cons name names =>
      have hdisplay : ((name :: names).map Value.text).map Value.display = name :: names := by
        rw [List.map_map]
        exact List.map_id _
      have hblank : (name :: names).filter (fun name => !Text.isBlankText name) = name :: names :=
        List.filter_eq_self.mpr fun name hname => by rw [h.2 name hname]; rfl
      have hnames : namesOf ((name :: names).map .text) = name :: names := by
        rw [namesOf, hdisplay, hblank, distinct_of_nodup h.1]
      exact congrArg Except.ok hnames

/-! ### Rules -/

/-- A rule whose names and sources are what reading leaves of some. -/
structure Settled (r : Rule) : Prop where
  rolesAny : CleanNames r.rolesAny
  permissionsAny : CleanNames r.permissionsAny
  permissionsAll : CleanNames r.permissionsAll
  bypassRoles : CleanNames r.bypassRoles
  bypassPermissions : CleanNames r.bypassPermissions
  sources : ∃ given : Stores.Sources, r.sources = given.cleaned

theorem cleaned_of_readSources {v : Value} {s : Stores.Sources} {isSound : Bool}
    (h : readSources v = .ok (s, isSound)) : ∃ given : Stores.Sources, s = given.cleaned := by
  unfold readSources at h
  split at h
  · next hread =>
      obtain ⟨rfl, -⟩ := Prod.mk.inj (Except.ok.inj h)
      exact Stores.Sources.cleaned_of_read hread
  · obtain ⟨rfl, -⟩ := Prod.mk.inj (Except.ok.inj h)
    exact ⟨.none, rfl⟩
  · obtain ⟨rfl, -⟩ := Prod.mk.inj (Except.ok.inj h)
    exact ⟨.none, rfl⟩
  · cases h

theorem settled_of_read {data : Value} {r : Rule} (h : read data = .ok r) : r.Settled := by
  obtain ⟨entry, hentry, hrule⟩ := bind_eq_ok h
  unfold Entry.read at hentry
  obtain ⟨fields, -, hentry⟩ := bind_eq_ok hentry
  obtain ⟨rolesAny, h₁, hentry⟩ := bind_eq_ok hentry
  obtain ⟨permissionsAny, h₂, hentry⟩ := bind_eq_ok hentry
  obtain ⟨permissionsAll, h₃, hentry⟩ := bind_eq_ok hentry
  obtain ⟨bypassRoles, h₄, hentry⟩ := bind_eq_ok hentry
  obtain ⟨bypassPermissions, h₅, hentry⟩ := bind_eq_ok hentry
  cases hid : fields.get? "id" with
  | none =>
      rw [hid] at hentry
      cases hentry
  | some id =>
      rw [hid] at hentry
      obtain ⟨⟨sources, isSound⟩, hsources, hentry⟩ := bind_eq_ok hentry
      obtain rfl := Except.ok.inj hentry
      unfold Entry.toRule at hrule
      split at hrule
      · split at hrule
        · cases hrule
        · obtain rfl := Except.ok.inj hrule
          exact ⟨cleanNames_of_read h₁, cleanNames_of_read h₂, cleanNames_of_read h₃,
            cleanNames_of_read h₄, cleanNames_of_read h₅, cleaned_of_readSources hsources⟩
      · cases hrule

theorem settled_of_snapshot {row : RuleRow} {r : Rule} (h : row.snapshot = .ok r) : r.Settled := by
  have reads := RuleRow.reads_of_snapshot h
  obtain ⟨isSound, hsources⟩ := reads.sources
  exact ⟨cleanNames_of_read reads.rolesAny, cleanNames_of_read reads.permissionsAny,
    cleanNames_of_read reads.permissionsAll, cleanNames_of_read reads.bypassRoles,
    cleanNames_of_read reads.bypassPermissions, cleaned_of_readSources hsources⟩

/-- A settled rule is read from its stored form, but for its keys, which are cleaned once more. -/
theorem Settled.read_toValue {r : Rule} (h : r.Settled) :
    Rule.read r.toValue = .ok { r with sources := r.sources.cleaned } := by
  have hentry : Entry.Of r.cachedFields ⟨r.cachedFields, r.id, r.sources.cleaned, true, r.rolesAny,
      r.permissionsAny,
      r.permissionsAll, r.bypassRoles, r.bypassPermissions⟩ := by
    constructor
    all_goals simp [cachedFields, toValue, Value.fields?, Fields.get?_cons, h.rolesAny.read,
      h.permissionsAny.read,
      h.permissionsAll.read, h.bypassRoles.read, h.bypassPermissions.read, readSources,
        Stores.Sources.read_toValue]
  rw [toValue_eq, hentry.rule]
  rfl

theorem Settled.read_toValue_iff {r : Rule} (h : r.Settled) :
    Rule.read r.toValue = .ok r ↔ r.sources.Trimmed := by
  obtain ⟨given, hgiven⟩ := h.sources
  have hsources : ({ r with sources := r.sources.cleaned } : Rule) = r ↔
      r.sources.cleaned = r.sources :=
    ⟨fun heq => congrArg Rule.sources heq, fun heq => by rw [heq]⟩
  rw [h.read_toValue, Except.ok.injEq, hsources, hgiven, Stores.Sources.cleaned_cleaned]

theorem Regular.read_json {r : Rule} (h : r.Regular) :
    ∃ w, Value.ofJson r.toValue.toSortedJson = .ok w ∧ Rule.read w = Rule.read r.toValue := by
  refine ⟨r.toValue.sorted, ?_, h.read_sorted⟩
  rw [← Value.toSortedJson_sorted h.plain_sorted]
  exact h.plain_sorted.stable

/-- What reading a stored form gives back.  Sources and rules, of whatever configuration, entry or
row they were made, come back with their keys cleaned once more, so they come back as they were just
when these are trimmed.  The JSON text of a rule whose fields have one says the same as its stored
form, and a sound row with a number that fits has such a rule. -/
theorem readBack_iff_trimmed (data : Value) (row : RuleRow) (s : Stores.Sources) (r : Rule) :
    (Stores.Sources.read data = .ok s →
      Stores.Sources.read s.toValue = .ok s.cleaned ∧
        (Stores.Sources.read s.toValue = .ok s ↔ s.Trimmed)) ∧
    (read data = .ok r ∨ row.snapshot = .ok r →
      read r.toValue = .ok { r with sources := r.sources.cleaned } ∧
        (read r.toValue = .ok r ↔ r.sources.Trimmed) ∧
        (r.Regular → ∃ w, Value.ofJson r.toValue.toSortedJson = .ok w ∧ read w = read r.toValue)) ∧
    (row.Sound → fits row.id → ∃ r, row.snapshot = .ok r ∧ r.Regular) := by
  refine ⟨fun hread => ⟨Stores.Sources.read_toValue s, Stores.Sources.read_toValue_iff hread⟩, ?_,
    ?_⟩
  · intro hr
    have hsettled : r.Settled := by
      rcases hr with hread | hsnapshot
      · exact settled_of_read hread
      · exact settled_of_snapshot hsnapshot
    exact ⟨hsettled.read_toValue, hsettled.read_toValue_iff, Regular.read_json⟩
  · intro hrow hid
    obtain ⟨r, hr⟩ := hrow.snapshot
    exact ⟨r, hr, hrow.regular (short_of_fits hid) hr⟩

/-- A stored rule that looks for the store under one key of the path. -/
def shopRow (key : String) : RuleRow where
  id := 7
  service := "shop"
  method := "GET"
  pattern := some "/orders"
  expression := some "^/orders$"
  routeName := none
  rolesAny := .null
  permissionsAny := Value.texts ["orders.read"]
  permissionsAll := .null
  scope := "scoped"
  sources := .object [("path", Value.texts [key])]
  matching := "all"
  allowsEmpty := false
  bypassRoles := .null
  bypassPermissions := .null
  isActive := true
  priority := .int 5

/-- The rule of such a row, with the key as it was cleaned. -/
def shopRule (key : String) : Rule where
  id := .int 7
  service := .text "shop"
  method := .text "GET"
  priority := .int 5
  routeName := .null
  pattern := .text "/orders"
  expression := .text "^/orders$"
  scope := .text "scoped"
  sources := ⟨[key], [], []⟩
  matching := .text "all"
  allowsEmpty := .bool false
  rolesAny := []
  permissionsAny := ["orders.read"]
  permissionsAll := []
  bypassRoles := []
  bypassPermissions := []

theorem snapshot_shopRow : (shopRow " ..store_id.").snapshot = .ok (shopRule "store_id") ∧
    (shopRow ". store").snapshot = .ok (shopRule " store") := by
  constructor <;> cbv

theorem sound_shopRow (key : String) : (shopRow key).Sound where
  names := by
    simp only [RuleRow.nameColumns, shopRow, List.forall_mem_cons]
    exact ⟨⟨[], rfl⟩, readNames_texts _, ⟨[], rfl⟩, ⟨[], rfl⟩, ⟨[], rfl⟩, by simp⟩
  sources := by
    have hsome : [("path", Value.texts [key])] ≠ [] := by simp
    obtain ⟨sources, hread⟩ := Stores.Sources.exists_read_object hsome
      (by simp [Stores.Bucket.names, Stores.Bucket.all, Stores.Bucket.name]) (by simp)
    exact ⟨(sources, true), by rw [shopRow, readSources, hread]⟩
  priority := ⟨5, rfl, by decide⟩

theorem readBack_iff_trimmed_shop :
    (Stores.Sources.read (shopRow " ..store_id.").sources = .ok ⟨["store_id"], [], []⟩ ∧
      Stores.Sources.read (Stores.Sources.mk ["store_id"] [] []).toValue =
        .ok ⟨["store_id"], [], []⟩) ∧
    (shopRow " ..store_id.").snapshot = .ok (shopRule "store_id") ∧
      read (shopRule "store_id").toValue = .ok (shopRule "store_id") ∧
      ∃ w, Value.ofJson (shopRule "store_id").toValue.toSortedJson = .ok w ∧
        read w = .ok (shopRule "store_id") := by
  have htrimmed : (Stores.Sources.mk ["store_id"] [] []).Trimmed := by
    intro bucket key hkey
    cases bucket with
    | path =>
        obtain rfl := List.mem_singleton.mp hkey
        exact ⟨by decide, by decide +kernel⟩
    | query => cases hkey
    | body => cases hkey
  have hsources :
      Stores.Sources.read (shopRow " ..store_id.").sources = .ok ⟨["store_id"], [], []⟩ := by cbv
  obtain ⟨hread, hrules, hrows⟩ :=
    readBack_iff_trimmed (shopRow " ..store_id.").sources (shopRow " ..store_id.")
    ⟨["store_id"], [], []⟩ (shopRule "store_id")
  obtain ⟨r, hr, hregular⟩ := hrows (sound_shopRow " ..store_id.") (by decide)
  obtain rfl : r = shopRule "store_id" := Except.ok.inj (hr.symm.trans snapshot_shopRow.1)
  obtain ⟨-, hrule, hjson⟩ := hrules (.inr hr)
  obtain ⟨w, hw, hwread⟩ := hjson hregular
  exact ⟨⟨hsources, (hread hsources).2.mpr htrimmed⟩, hr, hrule.mpr htrimmed, w, hw,
    hwread.trans (hrule.mpr htrimmed)⟩

/-- White space behind a dot is at an end of the cleaned key, and is lost when the key is read
again. -/
theorem readBack_blankBehindDot :
    (Stores.Sources.read (shopRow ". store").sources = .ok ⟨[" store"], [], []⟩ ∧
      Stores.Sources.read (Stores.Sources.mk [" store"] [] []).toValue = .ok ⟨["store"], [], []⟩) ∧
    (shopRow ". store").snapshot = .ok (shopRule " store") ∧
      read (shopRule " store").toValue = .ok (shopRule "store") ∧
      shopRule "store" ≠ shopRule " store" := by
  have hcleaned : (Stores.Sources.mk [" store"] [] []).cleaned = ⟨["store"], [], []⟩ := by
    decide +kernel
  have hsources : Stores.Sources.read (shopRow ". store").sources = .ok ⟨[" store"], [], []⟩ := by
    cbv
  refine ⟨⟨hsources, ?_⟩, snapshot_shopRow.2, ?_, ?_⟩
  · rw [Stores.Sources.read_toValue, hcleaned]
  · rw [(settled_of_snapshot snapshot_shopRow.2).read_toValue]
    exact congrArg (fun sources => Except.ok { shopRule " store" with sources := sources }) hcleaned
  · exact fun heq => absurd (congrArg (fun r : Rule => r.sources.path) heq) (by decide)

end Rule
end AccessControl
