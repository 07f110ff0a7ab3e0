import AccessControl.Proofs.Schema.Checks
import AccessControl.Proofs.Schema.Forms
import AccessControl.Settings.Environment
import Mathlib

/-! # What the settings are read from

A call of `load` looks at every setting on its own: at the value that the first source with one has
for it (`supplied`).  Settings that are loaded hold for each name what its reading gives of that
value, or what it is while nothing is configured (`check_eq_ok_iff`).  Where the other settings can
be read, the outcome is that of the one that is left (`verdict_check`). -/

namespace AccessControl.Settings

open Schema (Checked withDefault)
open Schema.Checked (verdict together)

/-- The value that is found for a setting. -/
def supplied (values : Fields) (environment : List (String × String)) (file : String)
    (name : String) : Option Value :=
  given values (environment.map fun e => (e.1, some e.2)) (File.read environment file) name

theorem supplied_cons (f : String × Value) (values : Fields) (environment : List (String × String))
    (file name : String) :
    supplied (f :: values) environment file name =
      if Text.lower f.1 = name then some f.2 else supplied values environment file name := by
  unfold supplied given fromValues
  rw [List.find?_cons]
  by_cases h : Text.lower f.1 = name
  · simp [h]
  · simp [h, beq_eq_false_iff_ne.mpr h]

/-- The fields that the settings are read from. -/
def found (lookup : String → Option Value) : Fields :=
  names.filterMap fun name => (lookup name).map fun v => (name, v)

theorem load_eq (values : Fields) (environment : List (String × String)) (file : String) :
    load values environment file = read (found (supplied values environment file)) := rfl

/-- A field is there just when a value was found for its setting. -/
theorem get?_found (lookup : String → Option Value) {name : String} (hname : name ∈ names) :
    (found lookup).get? name = lookup name := by
  have hlist : ∀ list : List String,
      Fields.get? (list.filterMap fun n => (lookup n).map fun v => (n, v)) name =
      if name ∈ list then lookup name else none := by
    intro list
    induction list with
    | nil => rfl
    | cons n list ih =>
        rw [List.filterMap_cons]
        cases hn : lookup n with
        | none =>
            rw [Option.map_none]
            dsimp only
            rw [ih]
            by_cases h : name = n <;> simp [h, hn]
        | some v =>
            rw [Option.map_some]
            dsimp only
            rw [Fields.get?_cons, ih]
            by_cases h : name = n <;> simp [h, hn]
  rw [found, hlist, if_pos hname]

/-! ### Settings that can be read -/

/-- Each setting is what its reading gives. -/
structure ReadFrom (fields : Fields) (s : Settings) : Prop where
  loggingLevel :
      withDefault fields "logging_level" readLevel standard.loggingLevel = .ok s.loggingLevel
  logFormat : withDefault fields "log_format" readLogFormat standard.logFormat = .ok s.logFormat
  allowIfNoRule :
      withDefault fields "allow_if_no_rule" Schema.bool standard.allowIfNoRule = .ok s.allowIfNoRule
  superRoles :
      withDefault fields "super_roles" (readList standardSuperRoles) standard.superRoles =
      .ok s.superRoles
  wildcardAbility :
      withDefault fields "wildcard_ability" readNonEmpty standard.wildcardAbility =
      .ok s.wildcardAbility
  hierarchyMaxDepth :
      withDefault fields "hierarchy_max_depth" readDepth standard.hierarchyMaxDepth =
      .ok s.hierarchyMaxDepth
  cacheKind : withDefault fields "cache_backend" readCacheKind standard.cacheKind = .ok s.cacheKind
  cacheSpace : withDefault fields "cache_prefix" readSpace standard.cacheSpace = .ok s.cacheSpace
  decisionTtl : durationIn fields "decision_cache_ttl" standard.decisionTtl = .ok s.decisionTtl
  rulesetTtl : durationIn fields "ruleset_cache_ttl" standard.rulesetTtl = .ok s.rulesetTtl
  permissionsTtl :
      durationIn fields "effective_permissions_cache_ttl" standard.permissionsTtl =
      .ok s.permissionsTtl
  allStoresTtl : durationIn fields "all_stores_cache_ttl" standard.allStoresTtl = .ok s.allStoresTtl
  redisUrl : withDefault fields "redis_url" readText standard.redisUrl = .ok s.redisUrl
  redisTimeout : durationIn fields "redis_socket_timeout" standard.redisTimeout = .ok s.redisTimeout
  databaseUrl : withDefault fields "database_url" readText standard.databaseUrl = .ok s.databaseUrl
  databaseEcho :
      withDefault fields "database_echo" Schema.bool standard.databaseEcho = .ok s.databaseEcho
  poolSize :
      withDefault fields "database_pool_size" (readAtLeast 1) standard.poolSize = .ok s.poolSize
  maxOverflow :
      withDefault fields "database_max_overflow" (readAtLeast 0) standard.maxOverflow =
      .ok s.maxOverflow
  poolTimeout :
      withDefault fields "database_pool_timeout" (readAbove 0) standard.poolTimeout =
      .ok s.poolTimeout

theorem readFrom_of_check {fields : Fields} {s : Settings} (h : check fields = .ok s) :
    ReadFrom fields s := by
  unfold check at h
  obtain ⟨_, _, f₁₈, h₁₉, rfl⟩ := Checked.seq_eq_ok_iff.mp h
  obtain ⟨_, _, f₁₇, h₁₈, rfl⟩ := Checked.seq_eq_ok_iff.mp f₁₈
  obtain ⟨_, _, f₁₆, h₁₇, rfl⟩ := Checked.seq_eq_ok_iff.mp f₁₇
  obtain ⟨_, _, f₁₅, h₁₆, rfl⟩ := Checked.seq_eq_ok_iff.mp f₁₆
  obtain ⟨_, _, f₁₄, h₁₅, rfl⟩ := Checked.seq_eq_ok_iff.mp f₁₅
  obtain ⟨_, _, f₁₃, h₁₄, rfl⟩ := Checked.seq_eq_ok_iff.mp f₁₄
  obtain ⟨_, _, f₁₂, h₁₃, rfl⟩ := Checked.seq_eq_ok_iff.mp f₁₃
  obtain ⟨_, _, f₁₁, h₁₂, rfl⟩ := Checked.seq_eq_ok_iff.mp f₁₂
  obtain ⟨_, _, f₁₀, h₁₁, rfl⟩ := Checked.seq_eq_ok_iff.mp f₁₁
  obtain ⟨_, _, f₉, h₁₀, rfl⟩ := Checked.seq_eq_ok_iff.mp f₁₀
  obtain ⟨_, _, f₈, h₉, rfl⟩ := Checked.seq_eq_ok_iff.mp f₉
  obtain ⟨_, _, f₇, h₈, rfl⟩ := Checked.seq_eq_ok_iff.mp f₈
  obtain ⟨_, _, f₆, h₇, rfl⟩ := Checked.seq_eq_ok_iff.mp f₇
  obtain ⟨_, _, f₅, h₆, rfl⟩ := Checked.seq_eq_ok_iff.mp f₆
  obtain ⟨_, _, f₄, h₅, rfl⟩ := Checked.seq_eq_ok_iff.mp f₅
  obtain ⟨_, _, f₃, h₄, rfl⟩ := Checked.seq_eq_ok_iff.mp f₄
  obtain ⟨_, _, f₂, h₃, rfl⟩ := Checked.seq_eq_ok_iff.mp f₃
  obtain ⟨_, _, f₁, h₂, rfl⟩ := Checked.seq_eq_ok_iff.mp f₂
  obtain ⟨_, h₁, rfl⟩ := Checked.fmap_eq_ok_iff.mp f₁
  exact ⟨h₁, h₂, h₃, h₄, h₅, h₆, h₇, h₈, h₉, h₁₀, h₁₁, h₁₂, h₁₃, h₁₄, h₁₅, h₁₆, h₁₇, h₁₈, h₁₉⟩

theorem check_of_load {values : Fields} {environment : List (String × String)} {file : String}
    {s : Settings} (h : load values environment file = .ok s) :
    check (found (supplied values environment file)) = .ok s := by
  rw [load_eq, read] at h
  cases hc : check (found (supplied values environment file)) with
  | ok t =>
      rw [hc] at h
      cases h
      rfl
  | issues found =>
      rw [hc] at h
      cases h
  | stopped why =>
      rw [hc] at h
      cases h

/-! ### One setting among others -/

/-- The reading of each setting, without its value. -/
def readings : List (String × (Value → Checked Unit)) :=
  [("logging_level", fun v => (readLevel v).verdict),
   ("log_format", fun v => (readLogFormat v).verdict),
    ("allow_if_no_rule", fun v => (Schema.bool v).verdict),
    ("super_roles", fun v => (readList standardSuperRoles v).verdict),
    ("wildcard_ability", fun v => (readNonEmpty v).verdict),
      ("hierarchy_max_depth", fun v => (readDepth v).verdict),
    ("cache_backend", fun v => (readCacheKind v).verdict),
      ("cache_prefix", fun v => (readSpace v).verdict),
    ("decision_cache_ttl", fun v => (readDuration (messageName "decision_cache_ttl") v).verdict),
    ("ruleset_cache_ttl", fun v => (readDuration (messageName "ruleset_cache_ttl") v).verdict),
    ("effective_permissions_cache_ttl",
      fun v => (readDuration (messageName "effective_permissions_cache_ttl") v).verdict),
    ("all_stores_cache_ttl",
      fun v => (readDuration (messageName "all_stores_cache_ttl") v).verdict),
    ("redis_url", fun v => (readText v).verdict),
    ("redis_socket_timeout",
      fun v => (readDuration (messageName "redis_socket_timeout") v).verdict),
    ("database_url", fun v => (readText v).verdict),
      ("database_echo", fun v => (Schema.bool v).verdict),
    ("database_pool_size", fun v => (readAtLeast 1 v).verdict),
    ("database_max_overflow", fun v => (readAtLeast 0 v).verdict),
    ("database_pool_timeout", fun v => (readAbove 0 v).verdict)]

theorem readings_names : readings.map Prod.fst = names := rfl

/-- The outcome of a setting among the fields, without its value. -/
def part (fields : Fields) (r : String × (Value → Checked Unit)) : Checked Unit :=
  withDefault fields r.1 r.2 ()

theorem verdict_check_eq (fields : Fields) :
    (check fields).verdict = together (readings.map (part fields)) := by
  unfold check
  simp only [Checked.verdict_seq, Checked.verdict_fmap, durationIn, Schema.verdict_withDefault]
  rw [together, readings]
  simp only [List.map_cons, List.map_nil, List.foldl_cons, List.foldl_nil, Checked.both_ok_left]
  rfl

/-- Where the other settings can be read, the outcome is that of the one that is left. -/
theorem verdict_check {before fields : Fields} {s : Settings} (hvalid : check before = .ok s)
    {name : String} (hothers : ∀ n ∈ names, n ≠ name → fields.get? n = before.get? n)
    {reading : Value → Checked Unit} (hreading : (name, reading) ∈ readings) {v : Value}
    (hv : fields.get? name = some v) :
    (check fields).verdict = Checked.under (.name name) (reading v) := by
  obtain ⟨front, back, hsplit⟩ := List.append_of_mem hreading
  have hnodup : (readings.map Prod.fst).Nodup := by decide
  rw [hsplit, List.map_append, List.map_cons, List.nodup_middle, List.nodup_cons,
    ← List.map_append] at hnodup
  have hnew : name ∉ (front ++ back).map Prod.fst := hnodup.1
  have hbefore : ∀ x ∈ readings.map (part before), x = .ok () := by
    rw [← Checked.together_eq_ok_iff, ← verdict_check_eq, Checked.verdict_eq_ok_iff]
    exact ⟨s, hvalid⟩
  have hother : ∀ r ∈ front ++ back, part fields r = .ok () := by
    intro r hr
    have hmem : r ∈ readings := by
      rw [hsplit]
      exact (List.Sublist.append_left (List.sublist_cons_self _ back) front).mem hr
    have hne : r.1 ≠ name := by
      rintro rfl
      exact hnew (List.mem_map_of_mem hr)
    have hname : r.1 ∈ names := by
      rw [← readings_names]
      exact List.mem_map_of_mem hmem
    have hget := hothers r.1 hname hne
    rw [part, withDefault, hget]
    exact hbefore _ (List.mem_map_of_mem hmem)
  have hpart : part fields (name, reading) = Checked.under (.name name) (reading v) := by
    rw [part, withDefault, hv]
  rw [verdict_check_eq, hsplit, List.map_append, List.map_cons, Checked.together_eq, hpart]
  · exact List.forall_mem_map.mpr fun r hr => hother r (List.mem_append_left _ hr)
  · exact List.forall_mem_map.mpr fun r hr => hother r (List.mem_append_right _ hr)

end AccessControl.Settings
