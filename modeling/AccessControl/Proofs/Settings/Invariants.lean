import AccessControl.Proofs.Rule.WellFormed
import AccessControl.Proofs.Settings.Checks
import AccessControl.Proofs.Settings.Durations
import Mathlib

/-! # What loaded settings keep

Settings that were loaded are `Proper`: the depth of the hierarchy is within its bounds, the name of
the ability for everything is there, the roles that may do everything are trimmed and different, and
the first part of cache keys has no colon at its ends.  Two settings are changed after they were
checked.  A duration that is half a microsecond or less is rounded to nothing, and a text of colons
only is trimmed to nothing; `Proper` says when.  What is given for a setting is a value of JSON. -/

namespace AccessControl

/-! ### Ends of a trimmed text -/

namespace Text

variable {p : Char → Bool} {cs : List Char} {c : Char}

theorem head?_trim (h : (trim p cs).head? = some c) : p c = false := by
  rw [← dropWhile_trim] at h
  exact Path.head?_dropWhile _ c h

theorem getLast?_trim (h : (trim p cs).getLast? = some c) : p c = false := by
  rw [trim, List.getLast?_reverse] at h
  exact Path.head?_dropWhile _ c h

end Text

namespace Settings

open Schema (Checked withDefault withDefault_eq_ok_iff)
open Schema.Checked (map_eq_ok_iff andThen_eq_ok_iff)
open Text (Trimmed)

variable {v : Value}

/-! ### One setting -/

/-- A duration is never below zero, and it is nothing just when it is given by seconds above zero
that are half a microsecond or less. -/
structure Lasting (given : Option Value) (d : Duration) : Prop where
  nonneg : 0 ≤ d.micros
  nothing : d.micros = 0 ↔ ∃ v x q, given = some v ∧ secondsOf v = some x ∧ x.worth = some q ∧
      0 < q ∧ q ≤ 1 / 2000000

theorem lasting_of_durationIn {fields : Fields} {name : String} {absent d : Duration}
    (h : durationIn fields name absent = .ok d) (habsent : 0 < absent.micros)
    (hfloat : ∀ y, fields.get? name = some (.float y) → y.Canonical) :
    Lasting (fields.get? name) d := by
  rcases withDefault_eq_ok_iff.mp h with ⟨v, hv, hread⟩ | ⟨hnone, rfl⟩
  · obtain ⟨x, q, hx, hq, hpos, hnonneg, hzero⟩ :=
      exists_of_readDuration (fun y hy => hfloat y (hy ▸ hv)) hread
    refine ⟨hnonneg, hzero.trans ⟨fun hle => ⟨v, x, q, hv, hx, hq, hpos, hle⟩, ?_⟩⟩
    rintro ⟨v', x', q', hv', hx', hq', -, hle⟩
    cases hv.symm.trans hv'
    cases hx.symm.trans hx'
    cases hq.symm.trans hq'
    exact hle
  · refine ⟨habsent.le, iff_of_false habsent.ne' ?_⟩
    rintro ⟨v, -, -, hv, -⟩
    cases hnone.symm.trans hv

theorem exists_of_readText {s : String} (h : readText v = .ok s) :
    ∃ text, v = .text text ∧ s = Text.stripOf Text.isSpace text := by
  obtain ⟨text, htext, rfl⟩ := map_eq_ok_iff.mp h
  cases v with
  | text t =>
      cases htext
      exact ⟨_, rfl, rfl⟩
  | _ => cases htext

theorem exists_of_readNonEmpty {s : String} (h : readNonEmpty v = .ok s) :
    readText v = .ok s ∧ s ≠ "" := by
  obtain ⟨t, ht, hs⟩ := andThen_eq_ok_iff.mp h
  split at hs
  · cases hs
  · next hne =>
      cases hs
      exact ⟨ht, fun heq => hne (String.isEmpty_iff.mpr heq)⟩

theorem bounds_of_readDepth {n : ℤ} (h : readDepth v = .ok n) : 1 ≤ n ∧ n ≤ 64 := by
  obtain ⟨k, -, hk⟩ := andThen_eq_ok_iff.mp h
  split at hk
  · cases hk
  · split at hk
    · cases hk
    · cases hk
      unfold depthLimit at *
      omega

theorem exists_of_readList {absent names : List String} (h : readList absent v = .ok names) :
    ∃ given, names = cleanList given := by
  unfold readList at h
  split at h
  · exact ⟨_, (Checked.ok.inj h).symm⟩
  · dsimp only at h
    split at h
    · unfold readJsonList at h
      split at h
      · exact ⟨_, (Checked.ok.inj h).symm⟩
      · exact absurd h Checked.refused_ne_ok
      · exact absurd h Checked.refused_ne_ok
    · exact ⟨_, (Checked.ok.inj h).symm⟩
  · exact ⟨_, (Checked.ok.inj h).symm⟩
  · cases h

theorem exists_of_readSpace {s : String} (h : readSpace v = .ok s) :
    ∃ text, v = .text text ∧
      s.toList = Text.trim (· == ':') (Text.trim Text.isSpace text.toList) := by
  obtain ⟨t, ht, rfl⟩ := map_eq_ok_iff.mp h
  obtain ⟨text, rfl, rfl⟩ := exists_of_readText (exists_of_readNonEmpty ht).1
  exact ⟨text, rfl, by rw [Text.stripOf, Text.stripOf, String.toList_ofList, String.toList_ofList]⟩

/-! ### All settings -/

/-- What settings keep when they are loaded; `given` tells the value that each
setting is given by, if any. -/
structure Proper (given : String → Option Value) (s : Settings) : Prop where
  decisionTtl : Lasting (given "decision_cache_ttl") s.decisionTtl
  rulesetTtl : Lasting (given "ruleset_cache_ttl") s.rulesetTtl
  permissionsTtl : Lasting (given "effective_permissions_cache_ttl") s.permissionsTtl
  allStoresTtl : Lasting (given "all_stores_cache_ttl") s.allStoresTtl
  redisTimeout : Lasting (given "redis_socket_timeout") s.redisTimeout
  spaceBegins : s.cacheSpace.toList.head? ≠ some ':'
  spaceEnds : s.cacheSpace.toList.getLast? ≠ some ':'
  spaceEmpty : s.cacheSpace = "" ↔
    ∃ text, given "cache_prefix" = some (.text text) ∧ ∀ c ∈ Text.trim Text.isSpace text.toList,
      c = ':'
  wildcardAbility : s.wildcardAbility ≠ ""
  depth : 1 ≤ s.hierarchyMaxDepth ∧ s.hierarchyMaxDepth ≤ 64
  rolesDiffer : s.superRoles.Nodup
  rolesTrimmed : ∀ role ∈ s.superRoles, Trimmed role

/-- A floating-point number that is found for a setting is one of the given values. -/
theorem canonical_supplied {values : Fields}
    (hfloats : ∀ f ∈ values, ∀ x, f.2 = .float x → x.Canonical)
    (environment : List (String × String)) (file name : String) {x : Double}
    (h : supplied values environment file name = some (.float x)) : x.Canonical := by
  have hentries : ∀ entries, fromEntries entries name ≠ some (.float x) := by
    intro entries hsome
    obtain ⟨text, -, htext⟩ := Option.map_eq_some_iff.mp hsome
    cases htext
  rcases Option.or_eq_some_iff.mp h with hfirst | ⟨-, hlast⟩
  · rcases Option.or_eq_some_iff.mp hfirst with hvalues | ⟨-, henvironment⟩
    · obtain ⟨f, hf, hfloat⟩ := Option.map_eq_some_iff.mp hvalues
      exact hfloats f (List.mem_of_find?_eq_some hf) x hfloat
    · exact absurd henvironment (hentries _)
  · exact absurd hlast (hentries _)

theorem space_of_readFrom {fields : Fields} {s : Settings} (h : ReadFrom fields s) :
    s.cacheSpace.toList.head? ≠ some ':' ∧ s.cacheSpace.toList.getLast? ≠ some ':' ∧
      (s.cacheSpace = "" ↔ ∃ text, fields.get? "cache_prefix" = some (.text text) ∧
        ∀ c ∈ Text.trim Text.isSpace text.toList, c = ':') := by
  rcases withDefault_eq_ok_iff.mp h.cacheSpace with ⟨v, hv, hread⟩ | ⟨hnone, hstandard⟩
  · obtain ⟨text, rfl, hspace⟩ := exists_of_readSpace hread
    refine ⟨fun hhead => ?_, fun hlast => ?_, ?_⟩
    · rw [hspace] at hhead
      exact absurd (Text.head?_trim hhead) (by decide)
    · rw [hspace] at hlast
      exact absurd (Text.getLast?_trim hlast) (by decide)
    · rw [← String.toList_inj, hspace, String.toList_empty, Path.trim_eq_nil, hv]
      simp
  · rw [hstandard, hnone]
    refine ⟨by decide, by decide, iff_of_false (by decide) ?_⟩
    rintro ⟨text, hsome, -⟩
    cases hsome

theorem roles_of_readFrom {fields : Fields} {s : Settings} (h : ReadFrom fields s) :
    s.superRoles.Nodup ∧ ∀ role ∈ s.superRoles, Trimmed role := by
  rcases withDefault_eq_ok_iff.mp h.superRoles with ⟨v, -, hread⟩ | ⟨-, hstandard⟩
  · obtain ⟨given, hclean⟩ := exists_of_readList hread
    rw [hclean]
    exact RuleText.trimmed_names given
  · rw [hstandard]
    exact ⟨by decide, List.forall_mem_singleton.mpr ⟨by decide, by decide⟩⟩

theorem wildcardAbility_of_readFrom {fields : Fields} {s : Settings} (h : ReadFrom fields s) :
    s.wildcardAbility ≠ "" := by
  rcases withDefault_eq_ok_iff.mp h.wildcardAbility with ⟨v, -, hv⟩ | ⟨-, hstandard⟩
  · exact (exists_of_readNonEmpty hv).2
  · rw [hstandard]
    decide

theorem depth_of_readFrom {fields : Fields} {s : Settings} (h : ReadFrom fields s) :
    1 ≤ s.hierarchyMaxDepth ∧ s.hierarchyMaxDepth ≤ 64 := by
  rcases withDefault_eq_ok_iff.mp h.hierarchyMaxDepth with ⟨v, -, hv⟩ | ⟨-, hstandard⟩
  · exact bounds_of_readDepth hv
  · rw [hstandard]
    decide

/-- Settings that are loaded are proper. -/
theorem load_proper {values : Fields} {environment : List (String × String)} {file : String}
    {s : Settings} (hfloats : ∀ f ∈ values, ∀ x, f.2 = .float x → x.Canonical)
    (h : load values environment file = .ok s) :
    Proper (supplied values environment file) s := by
  have hread := readFrom_of_check (check_of_load h)
  have hduration : ∀ {name : String} {absent d : Duration}, name ∈ names → 0 < absent.micros →
      durationIn (found (supplied values environment file)) name absent = .ok d →
      Lasting (supplied values environment file name) d := by
    intro name absent d hname habsent hd
    have hget := get?_found (supplied values environment file) hname
    have hlasting := lasting_of_durationIn hd habsent
    rw [hget] at hlasting
    exact hlasting fun y hy => canonical_supplied hfloats environment file name hy
  obtain ⟨hbegins, hends, hempty⟩ := space_of_readFrom hread
  obtain ⟨hdiffer, htrimmed⟩ := roles_of_readFrom hread
  rw [get?_found _ (by decide)] at hempty
  exact {
    decisionTtl := hduration (by decide) (by decide) hread.decisionTtl
    rulesetTtl := hduration (by decide) (by decide) hread.rulesetTtl
    permissionsTtl := hduration (by decide) (by decide) hread.permissionsTtl
    allStoresTtl := hduration (by decide) (by decide) hread.allStoresTtl
    redisTimeout := hduration (by decide) (by decide) hread.redisTimeout
    spaceBegins := hbegins
    spaceEnds := hends
    spaceEmpty := hempty
    wildcardAbility := wildcardAbility_of_readFrom hread
    depth := depth_of_readFrom hread
    rolesDiffer := hdiffer
    rolesTrimmed := htrimmed }

/-- The values of these settings pass their checks, and are nothing afterwards. -/
theorem load_emptied : ∃ s, load [("cache_prefix", .text ":"),
      ("decision_cache_ttl", .float (Decimal.mk false 1 (-7)).toDouble)] [] "" = .ok s ∧
    s.cacheSpace = "" ∧ s.decisionTtl.micros = 0 :=
  ⟨{ standard with cacheSpace := "", decisionTtl := ⟨0⟩ }, by decide +kernel, rfl, rfl⟩

/-- Settings whose texts are changed when they are read. -/
theorem load_proper_changed :
    ∃ s, load [("cache_prefix", .text " :app: "), ("super_roles", .text " a,,a"),
      ("decision_cache_ttl", .text "5m")] [] "" = .ok s ∧
    Proper (supplied [("cache_prefix", .text " :app: "), ("super_roles", .text " a,,a"),
      ("decision_cache_ttl", .text "5m")] [] "") s := by
  have hload : load [("cache_prefix", .text " :app: "), ("super_roles", .text " a,,a"),
      ("decision_cache_ttl", .text "5m")] [] "" =
        .ok { standard with
          cacheSpace := "app", superRoles := ["a"], decisionTtl := .seconds 300 } := by
    decide +kernel
  exact ⟨_, hload, load_proper (by simp) hload⟩

end Settings
end AccessControl
