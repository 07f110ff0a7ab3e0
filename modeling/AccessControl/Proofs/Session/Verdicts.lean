import AccessControl.Proofs.Policy.Evaluation
import AccessControl.Proofs.Rule.Snapshots
import AccessControl.Proofs.Session.Freshness
import AccessControl.Session.Authorization
import Mathlib

/-! # Verdicts without a cache

What a verdict is to be is said without sessions and caches (`plainVerdict`): the rules come from
tables, and the permissions in stores from tables of the same or of another moment
(`Tables.source`).  An evaluation of a rule in a coherent session, with or without a cache, mirrors
the evaluation over its tables (`mirrors_evaluate`). -/

namespace AccessControl

open Database

/-! ### Plain verdicts -/

/-- The permissions of users in stores, as the tables say. -/
def Database.Tables.source (t : Tables) (depth : ℤ) : Policy.PermissionSource (Except Failure) where
  inStore user store := do
    let u ← asked user
    let st ← asked store
    match u, st with
    | some u, some st => return t.permissionsIn depth u st
    | _, _ => return []
  hasAllStores user :=
    if t.hasActiveStore then do return (← asked user).any t.coversActiveStores else return true

namespace Session

/-- The active rules of a service for a method. -/
def rulesOf (t : Tables) (service : Value) (method : String) : Except Failure (List Rule) :=
  match service with
  | .text s => do t.rulesFor (Text.lower (Text.strip s)) (← RuleText.methodOf (.text method))
  | _ => .error .shape

/-- The rule that decides about a request, with the stores that count for it. -/
def ruleOf (t : Tables) (request : Request) (method : String) :
    Except Failure (Option (Rule × List ℤ)) := do
  let rules ← rulesOf t request.service method
  match ← Rule.select rules request.path request.routeName with
  | none => return none
  | some rule =>
    let stores ← (Policy.storeIdsFor rule (some request.context)).mapError (Failure.numeral "")
    return some (rule, stores)

/-- The verdict without a cache: by the rules of some tables, and by the permissions in stores of
the same or of other ones. -/
def plainVerdict (settings : Settings) (t past : Tables) (request : Request) (caller : Caller) :
    Except Failure Verdict := do
  let method ← request.lookupMethod
  if settings.superRoles.any caller.roles.contains then return bareVerdict true .superRole
  else
    match ← ruleOf t request method with
    | none => return bareVerdict settings.allowIfNoRule .noRule
    | some (rule, stores) =>
      Policy.evaluate (past.source settings.hierarchyMaxDepth) settings.wildcardAbility rule caller
        (stores.map .int)

section plainVerdict

variable {settings : Settings} {t past : Tables} {request : Request} {caller : Caller}
  {method : String}

theorem ruleOf_error {e : Failure} (hrules : rulesOf t request.service method = .error e) :
    ruleOf t request method = .error e := by
  unfold ruleOf
  rw [hrules]
  rfl

section selection

variable {rules : List Rule} (hrules : rulesOf t request.service method = .ok rules)

include hrules

theorem ruleOf_unselected {e : Failure}
    (hselect : Rule.select rules request.path request.routeName = .error e) :
    ruleOf t request method = .error e := by
  unfold ruleOf
  rw [hrules]
  change (Rule.select rules request.path request.routeName >>= _) = _
  rw [hselect]
  rfl

theorem ruleOf_none (hselect : Rule.select rules request.path request.routeName = .ok none) :
    ruleOf t request method = .ok none := by
  unfold ruleOf
  rw [hrules]
  change (Rule.select rules request.path request.routeName >>= _) = _
  rw [hselect]
  rfl

theorem ruleOf_some {rule : Rule}
    (hselect : Rule.select rules request.path request.routeName = .ok (some rule)) :
    ruleOf t request method =
      ((Policy.storeIdsFor rule (some request.context)).mapError (Failure.numeral "")).map
      fun stores => some (rule, stores) := by
  unfold ruleOf
  rw [hrules]
  change (Rule.select rules request.path request.routeName >>= _) = _
  rw [hselect]
  change ((Policy.storeIdsFor rule (some request.context)).mapError (Failure.numeral "") >>= _) = _
  cases Policy.storeIdsFor rule (some request.context) <;> rfl

end selection

/-- The rule that decides is selected among the active ones, and the stores are
those of the request. -/
theorem ruleOf_eq_some {rule : Rule} {stores : List ℤ}
    (h : ruleOf t request method = .ok (some (rule, stores))) :
    ∃ rules, rulesOf t request.service method = .ok rules ∧
      Rule.select rules request.path request.routeName = .ok (some rule) ∧
      Policy.storeIdsFor rule (some request.context) = .ok stores := by
  cases hrules : rulesOf t request.service method with
  | error e =>
      rw [ruleOf_error hrules] at h
      cases h
  | ok rules =>
      cases hselect : Rule.select rules request.path request.routeName with
      | error e =>
          rw [ruleOf_unselected hrules hselect] at h
          cases h
      | ok found =>
          cases found with
          | none =>
              rw [ruleOf_none hrules hselect] at h
              cases h
          | some other =>
              rw [ruleOf_some hrules hselect] at h
              cases hstores : Policy.storeIdsFor other (some request.context) with
              | error e =>
                  rw [hstores] at h
                  cases h
              | ok ids =>
                  rw [hstores] at h
                  obtain ⟨rfl, rfl⟩ : other = rule ∧ ids = stores := by simpa using Except.ok.inj h
                  exact ⟨rules, rfl, hselect, hstores⟩

theorem plainVerdict_unmethodical {e : Failure} (hmethod : request.lookupMethod = .error e) :
    plainVerdict settings t past request caller = .error e := by
  unfold plainVerdict
  rw [hmethod]
  rfl

theorem plainVerdict_super (hmethod : request.lookupMethod = .ok method)
    (hsuper : settings.superRoles.any caller.roles.contains = true) :
    plainVerdict settings t past request caller = .ok (bareVerdict true .superRole) := by
  unfold plainVerdict
  rw [hmethod]
  exact if_pos hsuper

section decided

variable (hmethod : request.lookupMethod = .ok method)
  (hsuper : ¬ settings.superRoles.any caller.roles.contains = true)

include hmethod hsuper

theorem plainVerdict_error {e : Failure} (hrule : ruleOf t request method = .error e) :
    plainVerdict settings t past request caller = .error e := by
  unfold plainVerdict
  rw [hmethod]
  refine (if_neg hsuper).trans ?_
  rw [hrule]
  rfl

theorem plainVerdict_none (hrule : ruleOf t request method = .ok none) :
    plainVerdict settings t past request caller =
      .ok (bareVerdict settings.allowIfNoRule .noRule) := by
  unfold plainVerdict
  rw [hmethod]
  refine (if_neg hsuper).trans ?_
  rw [hrule]
  rfl

theorem plainVerdict_some {rule : Rule} {stores : List ℤ}
    (hrule : ruleOf t request method = .ok (some (rule, stores))) :
    plainVerdict settings t past request caller =
      Policy.evaluate (past.source settings.hierarchyMaxDepth) settings.wildcardAbility rule caller
        (stores.map .int) := by
  unfold plainVerdict
  rw [hmethod]
  refine (if_neg hsuper).trans ?_
  rw [hrule]
  rfl

end decided

end plainVerdict

/-! ### Sources -/

theorem source_inStore (t : Tables) (depth u st : ℤ) : (t.source depth).inStore (.int u) (.int st) =
    if fits u ∧ fits st then .ok (t.permissionsIn depth u st) else .error .range := by
  unfold Tables.source
  dsimp only
  rw [asked_int, asked_int]
  by_cases hu : fits u
  · by_cases hst : fits st
    · rw [if_pos hu, if_pos hst, if_pos ⟨hu, hst⟩]
      rfl
    · rw [if_pos hu, if_neg hst, if_neg fun h => hst h.2]
      rfl
  · rw [if_neg hu, if_neg (c := fits u ∧ fits st) fun h => hu h.1]
    rfl

theorem source_hasAllStores (t : Tables) (depth u : ℤ) : (t.source depth).hasAllStores (.int u) =
    if fits u ∨ t.hasActiveStore = false then .ok (t.coversStores u) else .error .range := by
  unfold Tables.source Tables.coversStores
  dsimp only
  cases t.hasActiveStore with
  | false =>
      rw [if_pos (c := fits u ∨ false = false) (.inr rfl), if_neg Bool.false_ne_true,
        if_neg Bool.false_ne_true]
      rfl
  | true =>
      rw [asked_int, if_pos rfl, if_pos rfl]
      by_cases hu : fits u
      · rw [if_pos hu, if_pos (.inl hu)]
        rfl
      · rw [if_neg hu, if_neg (by simpa using hu)]
        rfl

variable {shared : Bool} {left : ℕ} {s : Session} {m : Cache.View} {α β : Type}

/-! ### Mirrors -/

/-- In a coherent session an operation answers as a computation over its tables does. -/
def Mirrors (operation : SessionM α) (plain : Tables → ℤ → Except Failure α) : Prop :=
  ∀ ⦃shared : Bool⦄ ⦃left : ℕ⦄ ⦃s : Session⦄ ⦃m : Cache.View⦄, Coherent shared left s m →
    ∃ m', Cache.Unmoved s.cache.space m m' ∧
      Answers shared left operation s (plain s.tables s.settings.hierarchyMaxDepth) m'

theorem mirrors_pure (a : α) : Mirrors (pure a) fun _ _ => .ok a :=
  fun _ _ _ m h => ⟨m, .refl _ m, answers_pure h a⟩

theorem mirrors_throw (e : Failure) : Mirrors (throw e : SessionM α) fun _ _ => .error e :=
  fun _ _ _ m h => ⟨m, .refl _ m, answers_outcome h rfl⟩

theorem mirrors_bind {x : SessionM α} {y : Tables → ℤ → Except Failure α} {f : α → SessionM β}
    {g : Tables → ℤ → α → Except Failure β} (hx : Mirrors x y)
    (hf : ∀ a, Mirrors (f a) fun t depth => g t depth a) :
    Mirrors (x >>= f) fun t depth => y t depth >>= g t depth := by
  intro shared left s m h
  obtain ⟨m₁, hmoved, hanswer⟩ := hx h
  dsimp only
  cases hy : y s.tables s.settings.hierarchyMaxDepth with
  | error e =>
      rw [hy] at hanswer
      exact ⟨m₁, hmoved, answers_bind_error hanswer⟩
  | ok a =>
      rw [hy] at hanswer
      obtain ⟨s₁, hrun, hkept, h₁⟩ := hanswer
      obtain ⟨m₂, hmoved', s₂, hrun', hkept', h₂⟩ := hf a h₁
      rw [hkept.cache.space] at hmoved'
      rw [hkept.tables, hkept.settings] at hrun'
      exact ⟨m₂, hmoved.trans hmoved', s₂, by rw [outcome_bind, hrun, andThen_ok, hrun']; rfl,
        hkept.trans hkept', h₂⟩

/-- The caller is nobody in particular, or a user with a number. -/
def Numbered (caller : Caller) : Prop := caller.userId = .null ∨ ∃ u, caller.userId = .int u

theorem mirrors_inStore (cached : Bool) (u st : ℤ) :
    Mirrors ((permissionSource cached).inStore (.int u) (.int st))
    fun t depth => (t.source depth).inStore (.int u) (.int st) := by
  intro shared left s m h
  dsimp only
  rw [source_inStore]
  cases cached with
  | true => exact (answers_effectivePermissions h u st).imp fun _ => .imp_left Cache.Differ.ofStore
  | false =>
      have hwork := answers_workOutPermissions h u st
      refine ⟨m, .refl _ m, ?_⟩
      split at hwork
      · next hfits =>
          rw [if_pos hfits]
          refine answers_bind (answers_bind hwork fun s₁ _ h₁ => answers_pure h₁ _) fun s₂ _ h₂ =>
            ?_
          rw [Value.textsAmong_texts]
          exact answers_pure h₂ _
      · next hfits =>
          rw [if_neg hfits]
          exact answers_bind_error (answers_bind_error hwork)

theorem mirrors_hasAllStores (cached : Bool) (u : ℤ) :
    Mirrors ((permissionSource cached).hasAllStores (.int u))
    fun t depth => (t.source depth).hasAllStores (.int u) := by
  intro shared left s m h
  dsimp only
  rw [source_hasAllStores]
  cases cached with
  | true => exact (answers_hasAllStores h u).imp fun _ => .imp_left Cache.Differ.ofAllStores
  | false => exact ⟨m, .refl _ m, answers_workOutAllStores h u⟩

section evaluate

variable (cached : Bool) (wildcard : String) (rule : Rule) {caller : Caller}

theorem mirrors_allowsIn (hcaller : Numbered caller) (store : ℤ) :
    Mirrors (Policy.allowsIn (permissionSource cached) wildcard rule caller (.int store))
      fun t depth => Policy.allowsIn (t.source depth) wildcard rule caller (.int store) := by
  unfold Policy.allowsIn
  rcases hcaller with hnull | ⟨u, hu⟩
  · rw [hnull]
    exact mirrors_bind (mirrors_pure []) fun held => mirrors_pure _
  · rw [hu]
    exact mirrors_bind (mirrors_inStore cached u store) fun held => mirrors_pure _

theorem mirrors_answersFor (hcaller : Numbered caller) (stores : List ℤ) (answers : StoreAnswers) :
    Mirrors (Policy.answersFor (permissionSource cached) wildcard rule caller answers
      (stores.map .int))
      fun t depth =>
        Policy.answersFor (t.source depth) wildcard rule caller answers (stores.map .int) := by
  induction stores generalizing answers with
  | nil => exact mirrors_pure answers
  | cons store stores ih =>
      exact mirrors_bind (mirrors_allowsIn cached wildcard rule hcaller store) fun allowed => ih _

theorem mirrors_allStoresVerdict (hcaller : Numbered caller) :
    Mirrors (Policy.allStoresVerdict (permissionSource cached) wildcard rule caller)
      fun t depth => Policy.allStoresVerdict (t.source depth) wildcard rule caller := by
  unfold Policy.allStoresVerdict
  dsimp only
  split
  · exact mirrors_pure _
  · have hlast : ∀ assigned : Bool, Mirrors (if assigned then
        return Policy.permissionVerdict wildcard rule caller.permissions caller.abilities
          (.ofMode Scope.allStores.label)
      else
        return Policy.verdict rule false .denyAllStores rule.required
          (.ofMode Scope.allStores.label))
      fun _ _ => if assigned then
        return Policy.permissionVerdict wildcard rule caller.permissions caller.abilities
          (.ofMode Scope.allStores.label)
      else
        return Policy.verdict rule false .denyAllStores rule.required
          (.ofMode Scope.allStores.label) := by
      intro assigned
      cases assigned with
      | true => exact mirrors_pure _
      | false => exact mirrors_pure _
    rcases hcaller with hnull | ⟨u, hu⟩
    · rw [hnull]
      exact mirrors_bind (mirrors_pure false) hlast
    · rw [hu]
      exact mirrors_bind (mirrors_hasAllStores cached u) hlast

/-- The evaluation of a rule in a coherent session, with or without a cache, is the one over its
tables. -/
theorem mirrors_evaluate (hcaller : Numbered caller) (stores : List ℤ) :
    Mirrors (Policy.evaluate (permissionSource cached) wildcard rule caller (stores.map .int))
      fun t depth => Policy.evaluate (t.source depth) wildcard rule caller (stores.map .int) := by
  unfold Policy.evaluate
  split
  · split
    · exact mirrors_pure _
    · exact mirrors_throw _
  · split
    · exact mirrors_pure _
    · unfold Policy.scopedVerdict
      split
      · split
        · exact mirrors_pure _
        · exact mirrors_pure _
      · exact mirrors_bind (mirrors_answersFor cached wildcard rule hcaller stores [])
          fun answers => mirrors_pure _
    · exact mirrors_allStoresVerdict cached wildcard rule hcaller
    · exact mirrors_pure _

end evaluate

/-! ### Notes -/

theorem answers_noted (h : Coherent shared left s m) {operation : SessionM α} {r : Except Failure α}
    {s' : Session} (hrun : outcome operation s = (r, s')) (hnoted : Noted s s') :
    Answers shared left operation s r m :=
  ⟨s', hrun, ⟨hnoted.settings, hnoted.tables, hnoted.saved, hnoted.cache ▸ .refl _⟩, h.noted hnoted⟩

/-- The evaluation of a rule is the one over the tables, reports apart. -/
theorem answers_evaluate (h : Coherent shared left s m) (cached : Bool) (rule : Rule)
    {caller : Caller} (hcaller : Numbered caller) (stores : List ℤ) :
    ∃ m', Cache.Unmoved s.cache.space m m' ∧
      Answers shared left (evaluate cached rule caller (stores.map .int)) s
        (Policy.evaluate (s.tables.source s.settings.hierarchyMaxDepth) s.settings.wildcardAbility
          rule caller
          (stores.map .int)) m' := by
  obtain ⟨m', hmoved, hanswer⟩ :=
    mirrors_evaluate cached s.settings.wildcardAbility rule hcaller stores h
  refine ⟨m', hmoved, answers_current ?_⟩
  dsimp only at hanswer ⊢
  generalize Policy.evaluate (s.tables.source s.settings.hierarchyMaxDepth)
    s.settings.wildcardAbility rule caller
    (stores.map .int) = result at hanswer ⊢
  cases result with
  | error e => exact answers_bind_error hanswer
  | ok v =>
      refine answers_bind hanswer fun s₁ _ h₁ => ?_
      split
      · exact answers_noted h₁ rfl ⟨rfl, rfl, rfl, rfl, rfl⟩
      · exact answers_pure h₁ v

theorem outcome_noteSources (id : Value) (sound : Bool) (s : Session) :
    ∃ s', outcome (noteSources id sound) s = (.ok (), s') ∧ Noted s s' := by
  unfold noteSources
  cases sound with
  | true => exact ⟨s, rfl, .refl s⟩
  | false => exact ⟨_, rfl, noted_records s _⟩

/-- Snapshots are taken of the rows alone, notes apart. -/
theorem outcome_snapshots (rows : List RuleRow) (s : Session) :
    ∃ s', outcome (snapshots rows) s = (rows.mapM RuleRow.snapshot, s') ∧ Noted s s' := by
  induction rows generalizing s with
  | nil => exact ⟨s, rfl, .refl s⟩
  | cons row rows ih =>
      unfold snapshots
      rw [outcome_bind, outcome_lift, List.mapM_cons]
      cases hsources : Rule.readSources row.sources with
      | error e =>
          have hrow : row.snapshot = .error e := by
            rw [RuleRow.snapshot, hsources]
            rfl
          rw [hrow]
          exact ⟨s, rfl, .refl s⟩
      | ok read =>
          obtain ⟨sources, sound⟩ := read
          have hrow : row.snapshot = row.toRule sources := by
            rw [RuleRow.snapshot, hsources]
            rfl
          obtain ⟨s₁, hrun₁, hnoted₁⟩ := outcome_noteSources (.int row.id) sound s
          rw [andThen_ok, hrow]
          dsimp only
          rw [outcome_bind, hrun₁, andThen_ok, outcome_bind, outcome_lift]
          cases row.toRule sources with
          | error e => exact ⟨s₁, rfl, hnoted₁⟩
          | ok rule =>
              obtain ⟨s₂, hrun₂, hnoted₂⟩ := ih s₁
              refine ⟨s₂, ?_, hnoted₁.trans hnoted₂⟩
              rw [andThen_ok, outcome_bind, hrun₂]
              cases rows.mapM RuleRow.snapshot <;> rfl

/-- Rules are restored from their cached forms alone, notes apart. -/
theorem outcome_restoreRules (items : List Value) (s : Session) :
    ∃ s', outcome (restoreRules items) s = (items.mapM Rule.read, s') ∧ Noted s s' := by
  induction items generalizing s with
  | nil => exact ⟨s, rfl, .refl s⟩
  | cons v items ih =>
      have hone : ∃ s', outcome (restoreRule v) s = (Rule.read v, s') ∧ Noted s s' := by
        unfold restoreRule Rule.read
        rw [outcome_bind, outcome_lift]
        cases Rule.Entry.read v with
        | error e => exact ⟨s, rfl, .refl s⟩
        | ok entry =>
            obtain ⟨s₁, hrun₁, hnoted₁⟩ := outcome_noteSources entry.id entry.isSound s
            rw [andThen_ok, outcome_bind, hrun₁, andThen_ok]
            exact ⟨s₁, rfl, hnoted₁⟩
      obtain ⟨s₁, hrun₁, hnoted₁⟩ := hone
      unfold restoreRules
      rw [outcome_bind, hrun₁, List.mapM_cons]
      cases Rule.read v with
      | error e => exact ⟨s₁, rfl, hnoted₁⟩
      | ok rule =>
          obtain ⟨s₂, hrun₂, hnoted₂⟩ := ih s₁
          refine ⟨s₂, ?_, hnoted₁.trans hnoted₂⟩
          rw [andThen_ok, outcome_bind, hrun₂]
          cases items.mapM Rule.read <;> rfl

end Session
end AccessControl
