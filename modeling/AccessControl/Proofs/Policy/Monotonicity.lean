import AccessControl.Proofs.Policy.Restriction
import Mathlib

/-! # Granting more never revokes

A caller has `MoreRights` than another one of the same user when it has all roles and permissions
of that one, and its token allows all that the token of that one does; no abilities at all allow
the most.  A source of permissions `GivesMore` than another one to a user when it gives the user
at least as much.  Access that is granted is still granted to a caller with more rights, from a
source that gives more (`evaluate_monotone`): what meets the requirements of a rule still meets
them (`Satisfies.mono`), and the answers for stores, of which a verdict is made, only turn from no
to yes (`answersFor_mono`). -/

namespace AccessControl
namespace Policy

/-- The second caller is the user of the first one and has at least its rights.  An
unrestricted token allows most. -/
structure MoreRights (wildcard : String) (c c' : Caller) : Prop where
  user : c'.userId = c.userId
  roles : c.roles ⊆ c'.roles
  permissions : c.permissions ⊆ c'.permissions
  abilities : ¬Restricts wildcard c'.abilities ∨
    (Restricts wildcard c.abilities ∧ Restricts wildcard c'.abilities ∧ c.abilities ⊆ c'.abilities)

/-- The second source gives a user at least what the first one gives. -/
structure PermissionSource.GivesMore (source source' : PermissionSource (Except Failure))
    (user : Value) : Prop where
  inStore : ∀ store held, source.inStore user store = .ok held →
    ∃ held', source'.inStore user store = .ok held' ∧ held ⊆ held'
  hasAllStores : source.hasAllStores user = .ok true → source'.hasAllStores user = .ok true

variable {wildcard : String} {rule : Rule} {c c' : Caller}
  {source source' : PermissionSource (Except Failure)}
  {held held' permissions roles : List String} {stores : List Value}

/-! ### Tokens -/

theorem allows_of_not_restricts {abilities : List String} (h : ¬Restricts wildcard abilities) :
    AllowsSome wildcard abilities permissions ∧ AllowsEach wildcard abilities permissions := by
  unfold Restricts at h
  rw [not_and_or, not_not, not_not] at h
  unfold AllowsSome AllowsEach
  exact ⟨or_assoc.mp (.inl h), or_assoc.mp (.inl h)⟩

section rights

variable (h : MoreRights wildcard c c')

include h

theorem MoreRights.allowsSome (hsome : AllowsSome wildcard c.abilities permissions) :
    AllowsSome wildcard c'.abilities permissions := by
  rcases h.abilities with hfree | ⟨hc, hc', habilities⟩
  · exact (allows_of_not_restricts hfree).1
  · rw [hc.allowsSome_iff] at hsome
    obtain ⟨name, hname, hability⟩ := hsome
    exact hc'.allowsSome_iff.mpr ⟨name, hname, habilities hability⟩

theorem MoreRights.allowsEach (heach : AllowsEach wildcard c.abilities permissions) :
    AllowsEach wildcard c'.abilities permissions := by
  rcases h.abilities with hfree | ⟨hc, hc', habilities⟩
  · exact (allows_of_not_restricts hfree).2
  · rw [hc.allowsEach_iff] at heach
    exact hc'.allowsEach_iff.mpr fun name hname => habilities (heach name hname)

/-! ### Requirements -/

/-- More permissions under a token that allows more still meet what a rule asks for. -/
theorem Satisfies.mono (hheld : held ⊆ held') (hmet : Satisfies wildcard c.abilities held rule) :
    Satisfies wildcard c'.abilities held' rule := by
  rcases hmet with ⟨⟨name, hname, hholds⟩, hallows⟩ | ⟨hsome, hholds, hallows⟩
  · exact .inl ⟨⟨name, hname, hheld hholds⟩, h.allowsSome hallows⟩
  · exact .inr ⟨hsome, fun name hname => hheld (hholds name hname), h.allowsEach hallows⟩

theorem authorized_permissionVerdict_mono (hheld : held ⊆ held') {found : StoreMeta}
    (hgranted : (permissionVerdict wildcard rule held c.abilities found).authorized = true) :
    (permissionVerdict wildcard rule held' c'.abilities found).authorized = true := by
  rw [authorized_permissionVerdict] at hgranted ⊢
  exact Satisfies.mono h hheld hgranted

theorem HasRole.mono (hrole : HasRole c roles) : HasRole c' roles := by
  obtain ⟨name, hname, hhas⟩ := hrole
  exact ⟨name, hname, h.roles hhas⟩

theorem Bypasses.mono (hbypass : Bypasses wildcard rule c) : Bypasses wildcard rule c' := by
  rcases hbypass with hrole | ⟨⟨name, hname, hholds⟩, hallows⟩
  · exact .inl (HasRole.mono h hrole)
  · exact .inr ⟨⟨name, hname, h.permissions hholds⟩, h.allowsSome hallows⟩

/-! ### Stores -/

section stores

variable (hsource : source.GivesMore source' c.userId)

include hsource

/-- A store whose answer is yes keeps this answer. -/
theorem allowsIn_mono {store : Value} {allowed : Bool}
    (hallowed : allowsIn source wildcard rule c store = .ok allowed) :
    ∃ allowed', allowsIn source' wildcard rule c' store = .ok allowed' ∧
      (allowed = true → allowed' = true) := by
  have hgrows : ∀ {held held' : List String}, held ⊆ held' →
      (permissionVerdict wildcard rule held c.abilities (.ofMode Scope.none.label)).authorized =
        true →
      (permissionVerdict wildcard rule held' c'.abilities (.ofMode Scope.none.label)).authorized =
        true :=
    fun hsub hgranted => authorized_permissionVerdict_mono h hsub hgranted
  unfold allowsIn at hallowed ⊢
  rw [h.user]
  cases hnull : c.userId.isNull with
  | true =>
      rw [hnull] at hallowed
      obtain rfl := Except.ok.inj hallowed
      exact ⟨_, rfl, hgrows (List.Subset.refl [])⟩
  | false =>
      rw [hnull] at hallowed
      obtain ⟨held, hheld, hallowed⟩ := bind_eq_ok hallowed
      obtain rfl := Except.ok.inj hallowed
      obtain ⟨held', hheld', hsub⟩ := hsource.inStore store held hheld
      refine ⟨_, ?_, hgrows hsub⟩
      simp only [Bool.false_eq_true, if_false, hheld']
      rfl

end stores

end rights

/-- The second answers are about the same stores, and a yes among the first ones is a yes there. -/
def NoLess (answers answers' : StoreAnswers) : Prop :=
  List.Forall₂ (fun a a' => a'.1 = a.1 ∧ (a.2 = true → a'.2 = true)) answers answers'

section answers

variable {answers answers' : StoreAnswers}

theorem NoLess.set (h : NoLess answers answers') (store : Value) {allowed allowed' : Bool}
    (hallowed : allowed = true → allowed' = true) :
    NoLess (StoreAnswers.set answers store allowed) (StoreAnswers.set answers' store allowed') := by
  induction h with
  | nil => exact .cons ⟨rfl, hallowed⟩ .nil
  | cons hhead hrest ih =>
      unfold StoreAnswers.set
      rw [hhead.1]
      split
      · exact .cons ⟨rfl, hallowed⟩ hrest
      · exact .cons hhead ih

theorem NoLess.any (h : NoLess answers answers') (hany : answers.any (·.2) = true) :
    answers'.any (·.2) = true := by
  induction h with
  | nil => exact hany
  | cons hhead _ ih =>
      rw [List.any_cons, Bool.or_eq_true] at hany ⊢
      exact hany.imp hhead.2 ih

theorem NoLess.all (h : NoLess answers answers') (hall : answers.all (·.2) = true) :
    answers'.all (·.2) = true := by
  induction h with
  | nil => rfl
  | cons hhead _ ih =>
      rw [List.all_cons, Bool.and_eq_true] at hall ⊢
      exact hall.imp hhead.2 ih

theorem authorized_combined (rule : Rule) (stores : List Value) (answers : StoreAnswers) :
    (combined rule stores answers).authorized =
      match Matching.ofValue rule.matching with
      | .any => answers.any (·.2)
      | .all => answers.all (·.2) := by
  unfold combined
  cases Matching.ofValue rule.matching with
  | any => cases hany : answers.any (·.2) <;> rfl
  | all => cases hall : answers.all (·.2) <;> rfl

theorem combined_mono (h : NoLess answers answers')
    (hgranted : (combined rule stores answers).authorized = true) :
    (combined rule stores answers').authorized = true := by
  rw [authorized_combined] at hgranted ⊢
  cases hmatching : Matching.ofValue rule.matching with
  | any =>
      rw [hmatching] at hgranted
      exact h.any hgranted
  | all =>
      rw [hmatching] at hgranted
      exact h.all hgranted

end answers

section rights

variable (h : MoreRights wildcard c c') (hsource : source.GivesMore source' c.userId)

include h hsource

/-- The answers for stores grow.  The invariant is about the answers so far, since a store
may be asked for again. -/
theorem answersFor_mono {before before' after : StoreAnswers} (hbefore : NoLess before before')
    (hafter : answersFor source wildcard rule c before stores = .ok after) :
    ∃ after', answersFor source' wildcard rule c' before' stores = .ok after' ∧
      NoLess after after' := by
  induction stores generalizing before before' with
  | nil =>
      obtain rfl := Except.ok.inj hafter
      exact ⟨before', rfl, hbefore⟩
  | cons store stores ih =>
      unfold answersFor at hafter ⊢
      obtain ⟨allowed, hallowed, hafter⟩ := bind_eq_ok hafter
      obtain ⟨allowed', hallowed', himp⟩ := allowsIn_mono h hsource hallowed
      rw [hallowed']
      change ∃ after', (if store.isScalar then _ else _) = _ ∧ _
      split at hafter
      · next hscalar =>
          rw [if_pos hscalar]
          exact ih (hbefore.set store himp) hafter
      · cases hafter

/-! ### Verdicts -/

theorem scopedVerdict_mono {v : Verdict} (hv : scopedVerdict source wildcard rule c stores = .ok v)
    (hgranted : v.authorized = true) :
    ∃ v', scopedVerdict source' wildcard rule c' stores = .ok v' ∧ v'.authorized = true := by
  unfold scopedVerdict at hv ⊢
  split
  · next hnone =>
      rw [if_pos hnone] at hv
      split at hv
      · next hempty =>
          rw [if_pos hempty]
          obtain rfl := Except.ok.inj hv
          exact ⟨_, rfl, authorized_permissionVerdict_mono h h.permissions hgranted⟩
      · obtain rfl := Except.ok.inj hv
        cases hgranted
  · next hsome =>
      rw [if_neg hsome] at hv
      obtain ⟨answers, hanswers, hv⟩ := bind_eq_ok hv
      obtain rfl := Except.ok.inj hv
      obtain ⟨answers', hanswers', hmost⟩ := answersFor_mono h hsource .nil hanswers
      exact ⟨_, by rw [hanswers']; rfl, combined_mono hmost hgranted⟩

theorem allStoresVerdict_mono {v : Verdict} (hv : allStoresVerdict source wildcard rule c = .ok v)
    (hgranted : v.authorized = true) :
    ∃ v', allStoresVerdict source' wildcard rule c' = .ok v' ∧ v'.authorized = true := by
  unfold allStoresVerdict at hv ⊢
  by_cases hbypass' : bypasses wildcard rule c' = true
  · rw [if_pos hbypass']
    exact ⟨_, rfl, rfl⟩
  · have hbypass : ¬bypasses wildcard rule c = true := by
      rw [bypasses_iff] at hbypass' ⊢
      exact mt (Bypasses.mono h) hbypass'
    rw [if_neg hbypass] at hv
    rw [if_neg hbypass', h.user]
    cases hnull : c.userId.isNull with
    | true =>
        rw [hnull] at hv
        obtain rfl := Except.ok.inj hv
        cases hgranted
    | false =>
        rw [hnull] at hv
        obtain ⟨assigned, hassigned, hv⟩ := bind_eq_ok hv
        cases assigned with
        | false =>
            obtain rfl := Except.ok.inj hv
            cases hgranted
        | true =>
            obtain rfl := Except.ok.inj hv
            refine ⟨_, ?_, authorized_permissionVerdict_mono h h.permissions hgranted⟩
            simp only [Bool.false_eq_true, if_false, hsource.hasAllStores hassigned]
            rfl

end rights

/-- The scope of a rule that grants access has a label. -/
theorem exists_modeLabel_of_authorized {v : Verdict}
    (hv : evaluate source wildcard rule c stores = .ok v) (hgranted : v.authorized = true) :
    ∃ mode, modeLabel rule.scope = .ok mode := by
  unfold evaluate at hv
  split at hv
  · cases hlabel : modeLabel rule.scope with
    | ok mode => exact ⟨mode, rfl⟩
    | error e =>
        rw [hlabel] at hv
        cases hv
  · unfold modeLabel
    cases hscope : Scope.ofValue rule.scope with
    | some scope => exact ⟨_, rfl⟩
    | none =>
        rw [hscope] at hv
        obtain rfl := Except.ok.inj hv
        cases hgranted

/-- Access that is granted to a caller is granted to one who has more rights. -/
theorem evaluate_monotone {v : Verdict} (h : MoreRights wildcard c c')
    (hsource : source.GivesMore source' c.userId)
    (hv : evaluate source wildcard rule c stores = .ok v) (hgranted : v.authorized = true) :
    ∃ v', evaluate source' wildcard rule c' stores = .ok v' ∧ v'.authorized = true := by
  obtain ⟨mode, hmode⟩ := exists_modeLabel_of_authorized hv hgranted
  unfold evaluate at hv ⊢
  by_cases hrole' : rule.rolesAny.any c'.roles.contains = true
  · rw [if_pos hrole', hmode]
    exact ⟨_, rfl, rfl⟩
  · -- Without the role for the greater caller, the lesser one has none either.
    have hrole : ¬rule.rolesAny.any c.roles.contains = true := by
      rw [hasRole_iff] at hrole' ⊢
      exact mt (HasRole.mono h) hrole'
    rw [if_neg hrole] at hv
    rw [if_neg hrole']
    cases hscope : Scope.ofValue rule.scope with
    | none =>
        rw [hscope] at hv
        obtain rfl := Except.ok.inj hv
        cases hgranted
    | some scope =>
        rw [hscope] at hv
        cases scope with
        | none =>
            obtain rfl := Except.ok.inj hv
            exact ⟨_, rfl, authorized_permissionVerdict_mono h h.permissions hgranted⟩
        | perStore => exact scopedVerdict_mono h hsource hv hgranted
        | allStores => exact allStoresVerdict_mono h hsource hv hgranted

/-- A clerk with a token for reading orders. -/
def clerk : Caller := ⟨.int 7, ["clerk"], [], ["orders.read"]⟩

/-- The clerk with one role more, and a token for writing orders as well. -/
def seniorClerk : Caller :=
  ⟨.int 7, ["senior", "clerk"], ["reports.read"], ["orders.write", "orders.read"]⟩

/-- Users may read orders in the fifth store only. -/
def readingSource : PermissionSource (Except Failure) := orderHoldings.source

/-- Users may write orders in every store, and read them in the fifth one. -/
def writingSource : PermissionSource (Except Failure) where
  inStore :=
    fun _ store =>
      .ok (if store.alike (.int 5) then ["orders.write", "orders.read"] else ["orders.write"])
  hasAllStores := fun _ => .ok true

/-- A clerk who may read orders in a store of the request may do so with more rights. -/
theorem evaluate_monotone_seniorClerk : MoreRights "*" clerk seniorClerk ∧
    readingSource.GivesMore writingSource clerk.userId ∧
    ∃ v, evaluate readingSource "*" orderRule clerk ([3, 3, 5].map .int) = .ok v ∧
      v.authorized = true ∧
      ∃ v', evaluate writingSource "*" orderRule seniorClerk ([3, 3, 5].map .int) = .ok v' ∧
        v'.authorized = true := by
  have hrights : MoreRights "*" clerk seniorClerk := ⟨rfl, by decide, by decide, .inr (by decide)⟩
  have hmore : readingSource.GivesMore writingSource clerk.userId := by
    refine ⟨fun store held hheld => ⟨_, rfl, ?_⟩, fun _ => rfl⟩
    obtain rfl : (if store.alike (.int 5) then ["orders.read"] else []) = held :=
      Except.ok.inj hheld
    split <;> simp
  obtain ⟨v, hv, hgranted⟩ : ∃ v, evaluate readingSource "*" orderRule clerk ([3, 3, 5].map .int) =
    .ok v ∧
      v.authorized = true := ⟨_, rfl, by decide⟩
  exact ⟨hrights, hmore, v, hv, hgranted, evaluate_monotone hrights hmore hv hgranted⟩

end Policy
end AccessControl
