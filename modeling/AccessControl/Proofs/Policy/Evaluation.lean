import AccessControl.Policy.Evaluation
import AccessControl.Proofs.Policy.Verdict
import AccessControl.Proofs.Rule.Snapshots
import Mathlib

/-! # What an evaluation depends on

The names of a caller count as sets (`evaluate_congr`).  For stores that are numbered apart, the
verdict of a rule whose scope is a text is regular, so that it can be cached and read back
(`evaluate_regular`). -/

namespace AccessControl
namespace Policy

/-! ### Callers -/

/-- Two callers are one user, with the same names as sets. -/
structure Alike (c c' : Caller) : Prop where
  user : c.userId = c'.userId
  roles : ∀ name, name ∈ c.roles ↔ name ∈ c'.roles
  permissions : ∀ name, name ∈ c.permissions ↔ name ∈ c'.permissions
  abilities : ∀ name, name ∈ c.abilities ↔ name ∈ c'.abilities

theorem contains_congr {names others : List String} (h : ∀ name, name ∈ names ↔ name ∈ others) :
    names.contains = others.contains := by
  funext name
  rw [Bool.eq_iff_iff, List.contains_iff_mem, List.contains_iff_mem, h]

/-- What a token allows depends on its abilities as a set. -/
theorem allows_congr (wildcard : String) {abilities others : List String}
    (h : ∀ name, name ∈ abilities ↔ name ∈ others) (permissions : List String) :
    allowsAny (allowance wildcard abilities) permissions =
      allowsAny (allowance wildcard others) permissions ∧
      allowsAll (allowance wildcard abilities) permissions =
        allowsAll (allowance wildcard others) permissions := by
  have hcontains := contains_congr h
  have hempty : abilities.isEmpty = others.isEmpty := by
    rw [Bool.eq_iff_iff, List.isEmpty_iff, List.isEmpty_iff, List.eq_nil_iff_forall_not_mem,
      List.eq_nil_iff_forall_not_mem]
    exact forall_congr' fun name => not_congr (h name)
  unfold allowance
  rw [hcontains, hempty]
  split
  · exact ⟨rfl, rfl⟩
  · simp only [allowsAny, allowsAll, Option.all_some, hcontains, and_self]

theorem permissionVerdict_congr {wildcard : String} {rule : Rule}
    {held held' abilities abilities' : List String} {stores : StoreMeta}
    (hheld : ∀ name, name ∈ held ↔ name ∈ held')
    (habilities : ∀ name, name ∈ abilities ↔ name ∈ abilities') :
    permissionVerdict wildcard rule held abilities stores =
      permissionVerdict wildcard rule held' abilities' stores := by
  have hallows := allows_congr wildcard habilities
  unfold permissionVerdict allowedVerdict meetsAny meetsAll
  rw [contains_congr hheld, (hallows rule.permissionsAny).1, (hallows rule.permissionsAll).2]

variable {source : PermissionSource (Except Failure)} {wildcard : String} {rule : Rule}
  {caller caller' : Caller}

theorem answersFor_congr (h : Alike caller caller') (stores : List Value) (answers : StoreAnswers) :
    answersFor source wildcard rule caller answers stores =
      answersFor source wildcard rule caller' answers stores := by
  have hallows : ∀ store, allowsIn source wildcard rule caller store = allowsIn source wildcard rule
      caller' store := by
    intro store
    have hverdict : ∀ held found, permissionVerdict wildcard rule held caller.abilities found =
        permissionVerdict wildcard rule held caller'.abilities found :=
      fun _ _ => permissionVerdict_congr (fun _ => Iff.rfl) h.abilities
    unfold allowsIn
    rw [h.user]
    simp only [hverdict]
  induction stores generalizing answers with
  | nil => rfl
  | cons store stores ih =>
      unfold answersFor
      rw [hallows store]
      congr 1
      funext allowed
      split
      · exact ih _
      · rfl

/-- The names of a caller count as sets. -/
theorem evaluate_congr (h : Alike caller caller') (stores : List Value) :
    evaluate source wildcard rule caller stores = evaluate source wildcard rule caller' stores := by
  have hheld : ∀ found, permissionVerdict wildcard rule caller.permissions caller.abilities found =
      permissionVerdict wildcard rule caller'.permissions caller'.abilities found :=
    fun _ => permissionVerdict_congr h.permissions h.abilities
  have hbypasses : bypasses wildcard rule caller = bypasses wildcard rule caller' := by
    unfold bypasses coversAny
    rw [contains_congr h.roles, contains_congr h.permissions,
      (allows_congr wildcard h.abilities rule.bypassPermissions).1]
  unfold evaluate scopedVerdict allStoresVerdict
  simp only [contains_congr h.roles, hheld, hbypasses, h.user, answersFor_congr h]

/-! ### Regular verdicts -/

theorem regular_verdict (rule : Rule) (authorized : Bool) (reason : Reason) (required : List String)
    {found : StoreMeta} (hids : ∃ ns : List ℤ, found.ids = ns.map .int)
    (hmode : ∃ mode, found.mode = .text mode)
    (hper : ∀ answers, found.perStore = some answers →
      ∃ pairs : List (ℤ × Bool), answers = pairs.map storeAnswer ∧ (pairs.map Prod.fst).Nodup ∧
      ∀ p ∈ pairs, Text.Short p.1) :
    (verdict rule authorized reason required found).Regular := ⟨⟨required, rfl⟩, hids, hmode, hper⟩

theorem regular_unanswered (rule : Rule) (authorized : Bool) (reason : Reason)
    (required : List String) {found : StoreMeta} (hids : ∃ ns : List ℤ, found.ids = ns.map .int)
    (hmode : ∃ mode, found.mode = .text mode) (hper : found.perStore = none) :
    (verdict rule authorized reason required found).Regular :=
  regular_verdict rule authorized reason required hids hmode fun answers heq => by
    rw [hper] at heq
    cases heq

theorem regular_permissionVerdict (wildcard : String) (rule : Rule) (held abilities : List String)
    (mode : String) :
    (permissionVerdict wildcard rule held abilities (.ofMode mode)).Regular := by
  have hregular : ∀ authorized reason required,
      (verdict rule authorized reason required (.ofMode mode)).Regular :=
    fun _ _ _ => regular_unanswered _ _ _ _ ⟨[], rfl⟩ ⟨mode, rfl⟩ rfl
  unfold permissionVerdict allowedVerdict
  split
  · exact hregular _ _ _
  · split
    · exact hregular _ _ _
    · exact hregular _ _ _

/-- Every store that is asked for gets an answer. -/
theorem answersFor_map (found : List (ℤ × Bool)) {stores : List ℤ} {answers : StoreAnswers}
    (hnodup : (found.map Prod.fst ++ stores).Nodup)
    (h : answersFor source wildcard rule caller (found.map storeAnswer) (stores.map .int) =
      .ok answers) :
    ∃ pairs : List (ℤ × Bool), answers = pairs.map storeAnswer ∧
      pairs.map Prod.fst = found.map Prod.fst ++ stores ∧
      ∀ n ∈ stores, ∃ allowed, allowsIn source wildcard rule caller (.int n) = .ok allowed := by
  induction stores generalizing found with
  | nil =>
      obtain rfl : found.map storeAnswer = answers := Except.ok.inj h
      exact ⟨found, rfl, (List.append_nil _).symm, by simp⟩
  | cons n stores ih =>
      rw [List.map_cons, answersFor] at h
      obtain ⟨allowed, hallowed, h⟩ := bind_eq_ok h
      have hnew : n ∉ found.map Prod.fst := by
        rw [List.nodup_middle] at hnodup
        exact fun hmem => (List.nodup_cons.mp hnodup).1 (List.mem_append_left _ hmem)
      change answersFor source wildcard rule caller
        (StoreAnswers.set (found.map storeAnswer) (.int n) allowed) _ = _ at h
      rw [StoreAnswers.set_new hnew] at h
      have hrest : ((found ++ [(n, allowed)]).map Prod.fst ++ stores).Nodup := by
        rwa [List.map_append, List.append_assoc]
      obtain ⟨pairs, hanswers, hstores, hask⟩ := ih _ hrest h
      refine ⟨pairs,
        hanswers, by rw [hstores, List.map_append, List.append_assoc]; rfl, fun k hk => ?_⟩
      rcases List.mem_cons.mp hk with rfl | hk
      · exact ⟨allowed, hallowed⟩
      · exact hask k hk

theorem regular_combined (rule : Rule) {stores : List ℤ} {pairs : List (ℤ × Bool)}
    (hpairs : pairs.map Prod.fst = stores) (hstores : stores.Nodup)
    (hshort : ∀ n ∈ stores, Text.Short n) :
    (combined rule (stores.map .int) (pairs.map storeAnswer)).Regular := by
  have hregular : ∀ authorized reason, (verdict rule authorized reason rule.required
      ⟨stores.map .int, .text Scope.perStore.label, some (pairs.map storeAnswer)⟩).Regular := by
    refine fun _ _ => regular_verdict _ _ _ _ ⟨stores, rfl⟩ ⟨_, rfl⟩ fun answers heq => ?_
    obtain rfl := Option.some.inj heq
    exact ⟨pairs, rfl, hpairs ▸ hstores, fun p hp => hshort p.1 (hpairs ▸ List.mem_map_of_mem hp)⟩
  unfold combined
  split <;> split <;> exact hregular _ _

section evaluate

variable {stores : List ℤ} {v : Verdict}

theorem regular_scopedVerdict (hstores : stores.Nodup) (huser : caller.userId.isNull = false)
    (hshort : ∀ n names, source.inStore caller.userId (.int n) = .ok names → Text.Short n)
    (h : scopedVerdict source wildcard rule caller (stores.map .int) = .ok v) : v.Regular := by
  unfold scopedVerdict at h
  split at h
  · split at h
    · obtain rfl := Except.ok.inj h
      exact regular_permissionVerdict _ _ _ _ _
    · obtain rfl := Except.ok.inj h
      exact regular_unanswered _ _ _ _ ⟨[], rfl⟩ ⟨_, rfl⟩ rfl
  · obtain ⟨answers, hanswers, h⟩ := bind_eq_ok h
    obtain rfl := Except.ok.inj h
    obtain ⟨pairs, rfl, hpairs, hask⟩ := answersFor_map [] hstores hanswers
    refine regular_combined rule hpairs hstores fun n hn => ?_
    obtain ⟨allowed, hallowed⟩ := hask n hn
    unfold allowsIn at hallowed
    rw [huser] at hallowed
    obtain ⟨held, hheld, -⟩ := bind_eq_ok hallowed
    exact hshort n held hheld

theorem regular_allStoresVerdict (huser : caller.userId.isNull = false)
    (h : allStoresVerdict source wildcard rule caller = .ok v) : v.Regular := by
  unfold allStoresVerdict at h
  split at h
  · obtain rfl := Except.ok.inj h
    exact regular_unanswered _ _ _ _ ⟨[], rfl⟩ ⟨_, rfl⟩ rfl
  · rw [huser] at h
    obtain ⟨assigned, -, h⟩ := bind_eq_ok h
    cases assigned with
    | true =>
        obtain rfl := Except.ok.inj h
        exact regular_permissionVerdict _ _ _ _ _
    | false =>
        obtain rfl := Except.ok.inj h
        exact regular_unanswered _ _ _ _ ⟨[], rfl⟩ ⟨_, rfl⟩ rfl

theorem exists_modeLabel (word : String) : ∃ mode, modeLabel (.text word) = .ok (.text mode) := by
  unfold modeLabel
  cases Scope.ofValue (.text word) with
  | none => exact ⟨word, rfl⟩
  | some s => exact ⟨s.label, rfl⟩

/-- The verdict of a rule for a user and stores that are numbered apart is regular. -/
theorem evaluate_regular (hstores : stores.Nodup) (huser : caller.userId.isNull = false)
    (hscope : ∃ word, rule.scope = .text word)
    (hshort : ∀ n names, source.inStore caller.userId (.int n) = .ok names → Text.Short n)
    (h : evaluate source wildcard rule caller (stores.map .int) = .ok v) : v.Regular := by
  obtain ⟨word, hword⟩ := hscope
  unfold evaluate at h
  split at h
  · -- A role grants access at once.
    obtain ⟨mode, hmode⟩ := exists_modeLabel word
    rw [hword, hmode] at h
    obtain rfl := Except.ok.inj h
    exact regular_unanswered _ _ _ _ ⟨stores, rfl⟩ ⟨mode, rfl⟩ rfl
  · split at h
    · obtain rfl := Except.ok.inj h
      exact regular_permissionVerdict _ _ _ _ _
    · exact regular_scopedVerdict hstores huser hshort h
    · exact regular_allStoresVerdict huser h
    · obtain rfl := Except.ok.inj h
      exact regular_unanswered _ _ _ _ ⟨stores, rfl⟩ ⟨_, rfl⟩ rfl

end evaluate

end Policy
end AccessControl
