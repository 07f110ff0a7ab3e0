import AccessControl.Proofs.Order
import AccessControl.Proofs.Policy.Evaluation
import Mathlib

/-! # Who is granted what a rule guards

What a rule asks of permissions is said without reference to the evaluation (`Satisfies`), and so is
when a caller is authorized (`Authorized`) and for which reason a verdict is given (`Explains`).  An
evaluation over any holdings gives the verdict that these describe (`evaluate_explained`): its
reason alone tells whether access is granted and which permissions are named, and the answers by
store are there exactly when single stores were asked about. -/

namespace AccessControl

/-! ### Reasons -/

namespace Reason

/-- Does a verdict for this reason grant access? -/
def grants : Reason → Bool
  | superRole | roles | permissionsAny | permissionsAll | storeAllAccess | storeAll | storeAny =>
      true
  | noRule | deny | denyStoreAll | denyStoreAny | denyNoStore | denyAllStores | denyInvalidMode =>
      false

/-- The permissions of a rule that a verdict for this reason names. -/
def permissions (rule : Rule) : Reason → List String
  | superRole | noRule | roles => []
  | permissionsAny => rule.permissionsAny
  | permissionsAll => rule.permissionsAll
  | storeAllAccess => rule.bypassPermissions
  | deny | storeAll | storeAny | denyStoreAll | denyStoreAny | denyNoStore | denyAllStores
  | denyInvalidMode =>
    rule.required

/-- Every reason has a code of its own. -/
theorem code_injective : Function.Injective code := by
  intro a b h
  cases a <;> cases b <;> first | rfl | (revert h; decide)

end Reason

theorem Scope.read_eq_some_iff {word : String} {s : Scope} :
    Scope.read word = some s ↔ word = s.word := by
  constructor
  · intro h
    have hword := List.find?_some h
    exact (beq_iff_eq.mp hword).symm
  · rintro rfl
    cases s <;> decide

namespace Policy

/-! ### What a rule asks for -/

section asked

variable (wildcard : String) (abilities permissions held : List String) (rule : Rule)

/-- The token allows one of the permissions: it is not restricted, or one is among its abilities. -/
def AllowsSome : Prop :=
  abilities = [] ∨ wildcard ∈ abilities ∨ ∃ name ∈ permissions, name ∈ abilities

/-- The token allows each of the permissions. -/
def AllowsEach : Prop :=
  abilities = [] ∨ wildcard ∈ abilities ∨ ∀ name ∈ permissions, name ∈ abilities

/-- One of the alternative permissions is held, and the token allows one. -/
def SatisfiesAny : Prop :=
  (∃ name ∈ rule.permissionsAny, name ∈ held) ∧ AllowsSome wildcard abilities rule.permissionsAny

/-- There are joint permissions, all of them are held, and the token allows each. -/
def SatisfiesAll : Prop :=
  rule.permissionsAll ≠ [] ∧ (∀ name ∈ rule.permissionsAll, name ∈ held) ∧
    AllowsEach wildcard abilities rule.permissionsAll

/-- The permissions that are held meet the rule, under what the token allows. -/
def Satisfies : Prop :=
  SatisfiesAny wildcard abilities held rule ∨ SatisfiesAll wildcard abilities held rule

instance : Decidable (SatisfiesAny wildcard abilities held rule) :=
  inferInstanceAs (Decidable (_ ∧ (_ ∨ _ ∨ _)))

instance : Decidable (SatisfiesAll wildcard abilities held rule) :=
  inferInstanceAs (Decidable (_ ∧ _ ∧ (_ ∨ _ ∨ _)))

instance : Decidable (Satisfies wildcard abilities held rule) := inferInstanceAs (Decidable (_ ∨ _))

end asked

/-! ### Who is authorized -/

/-- What every user holds: the permissions in each store, and whether all active stores are
assigned. -/
structure Holdings where
  inStore : Value → Value → List String
  hasAllStores : Value → Bool

/-- The holdings as a source of permissions. -/
def Holdings.source {m : Type → Type} [Monad m] (holdings : Holdings) : PermissionSource m :=
  ⟨fun user store => pure (holdings.inStore user store),
   fun user => pure (holdings.hasAllStores user)⟩

section authorized

variable (wildcard : String) (holdings : Holdings) (rule : Rule) (caller : Caller) (stores : List ℤ)

/-- The permissions of the caller in a store: nobody in particular holds none. -/
def heldIn (store : ℤ) : List String :=
  if caller.userId.isNull then [] else holdings.inStore caller.userId (.int store)

/-- The caller has one of the roles. -/
def HasRole (roles : List String) : Prop := ∃ name ∈ roles, name ∈ caller.roles

/-- The global permissions of the caller meet the rule. -/
def SatisfiesGlobally : Prop := Satisfies wildcard caller.abilities caller.permissions rule

/-- The permissions of the caller in a store meet the rule. -/
def SatisfiesIn (store : ℤ) : Prop :=
  Satisfies wildcard caller.abilities (heldIn holdings caller store) rule

instance (store : ℤ) : Decidable (SatisfiesIn wildcard holdings rule caller store) :=
  inferInstanceAs (Decidable (Satisfies ..))

/-- The caller holds a bypass permission, and the token allows one. -/
def HasBypassPermission : Prop :=
  (∃ name ∈ rule.bypassPermissions, name ∈ caller.permissions) ∧
    AllowsSome wildcard caller.abilities rule.bypassPermissions

/-- The caller is a user who is assigned to every active store. -/
def IsAssigned : Prop := caller.userId.isNull = false ∧ holdings.hasAllStores caller.userId = true

/-- When a caller is authorized by a rule for the stores of a request. -/
inductive Authorized : Prop
  | role (h : HasRole caller rule.rolesAny)
  | global (scope : rule.scope = .text Scope.none.word) (h : SatisfiesGlobally wildcard rule caller)
  | noStore (scope : rule.scope = .text Scope.perStore.word) (none : stores = [])
      (allowed : rule.allowsEmpty.isTruthy)
      (h : SatisfiesGlobally wildcard rule caller)
  | someStore (scope : rule.scope = .text Scope.perStore.word)
      (matching : rule.matching = .text Matching.any.word)
      (h : ∃ store ∈ stores, SatisfiesIn wildcard holdings rule caller store)
  | eachStore (scope : rule.scope = .text Scope.perStore.word)
      (matching : rule.matching ≠ .text Matching.any.word)
      (some : stores ≠ []) (h : ∀ store ∈ stores, SatisfiesIn wildcard holdings rule caller store)
  | bypassRole (scope : rule.scope = .text Scope.allStores.word)
      (h : HasRole caller rule.bypassRoles)
  | bypassPermission (scope : rule.scope = .text Scope.allStores.word)
      (h : HasBypassPermission wildcard rule caller)
  | allStores (scope : rule.scope = .text Scope.allStores.word)
      (assigned : IsAssigned holdings caller)
      (h : SatisfiesGlobally wildcard rule caller)

/-! ### Why -/

/-- The caller passes a rule for all stores by a role or a permission. -/
def Bypasses : Prop := HasRole caller rule.bypassRoles ∨ HasBypassPermission wildcard rule caller

/-- The rule is decided by the global permissions of the caller. -/
inductive AsksGlobally : Prop
  | global (scope : rule.scope = .text Scope.none.word)
  | noStore (scope : rule.scope = .text Scope.perStore.word) (none : stores = [])
      (allowed : rule.allowsEmpty.isTruthy)
  | allStores (scope : rule.scope = .text Scope.allStores.word)
      (bypass : ¬Bypasses wildcard rule caller)
      (assigned : IsAssigned holdings caller)

/-- The rule is decided by the permissions of the caller in each of the stores. -/
structure AsksStores : Prop where
  role : ¬HasRole caller rule.rolesAny
  scope : rule.scope = .text Scope.perStore.word
  some : stores ≠ []

/-- The reason for the verdict on a caller and the stores of a request. -/
inductive Explains : Reason → Prop
  | roles (h : HasRole caller rule.rolesAny) : Explains .roles
  | permissionsAny (role : ¬HasRole caller rule.rolesAny)
      (asked : AsksGlobally wildcard holdings rule caller stores)
      (h : SatisfiesAny wildcard caller.abilities caller.permissions rule) :
        Explains .permissionsAny
  | permissionsAll (role : ¬HasRole caller rule.rolesAny)
      (asked : AsksGlobally wildcard holdings rule caller stores)
      (any : ¬SatisfiesAny wildcard caller.abilities caller.permissions rule)
      (h : SatisfiesAll wildcard caller.abilities caller.permissions rule) :
        Explains .permissionsAll
  | deny (role : ¬HasRole caller rule.rolesAny)
      (asked : AsksGlobally wildcard holdings rule caller stores)
      (h : ¬SatisfiesGlobally wildcard rule caller) : Explains .deny
  | denyNoStore (role : ¬HasRole caller rule.rolesAny)
      (scope : rule.scope = .text Scope.perStore.word)
      (none : stores = []) (allowed : rule.allowsEmpty.isTruthy = false) : Explains .denyNoStore
  | storeAny (asked : AsksStores rule caller stores)
      (matching : rule.matching = .text Matching.any.word)
      (h : ∃ store ∈ stores, SatisfiesIn wildcard holdings rule caller store) : Explains .storeAny
  | denyStoreAny (asked : AsksStores rule caller stores)
      (matching : rule.matching = .text Matching.any.word)
      (h : ∀ store ∈ stores, ¬SatisfiesIn wildcard holdings rule caller store) :
        Explains .denyStoreAny
  | storeAll (asked : AsksStores rule caller stores)
      (matching : rule.matching ≠ .text Matching.any.word)
      (h : ∀ store ∈ stores, SatisfiesIn wildcard holdings rule caller store) : Explains .storeAll
  | denyStoreAll (asked : AsksStores rule caller stores)
      (matching : rule.matching ≠ .text Matching.any.word)
      (h : ∃ store ∈ stores, ¬SatisfiesIn wildcard holdings rule caller store) :
        Explains .denyStoreAll
  | storeAllAccess (role : ¬HasRole caller rule.rolesAny)
      (scope : rule.scope = .text Scope.allStores.word)
      (h : Bypasses wildcard rule caller) : Explains .storeAllAccess
  | denyAllStores (role : ¬HasRole caller rule.rolesAny)
      (scope : rule.scope = .text Scope.allStores.word)
      (bypass : ¬Bypasses wildcard rule caller) (assigned : ¬IsAssigned holdings caller) :
        Explains .denyAllStores
  | denyInvalidMode (role : ¬HasRole caller rule.rolesAny)
      (scope : ∀ s : Scope, rule.scope ≠ .text s.word) :
      Explains .denyInvalidMode

/-- The answers by store, each store once in the order of the request. -/
def answersByStore : StoreAnswers :=
  (Text.distinct stores).map fun store =>
    (.int store, decide (SatisfiesIn wildcard holdings rule caller store))

/-- A verdict says what the declarative reading says. -/
structure Explained (v : Verdict) : Prop where
  authorized : v.authorized = true ↔ Authorized wildcard holdings rule caller stores
  reason : ∃ reason, Explains wildcard holdings rule caller stores reason ∧
      v.grantedBy = reason.code ∧
    v.required = (reason.permissions rule).map .text
  grants : ∀ reason : Reason, v.grantedBy = reason.code → v.authorized = reason.grants
  asked : AsksStores rule caller stores →
    v.stores.perStore = some (answersByStore wildcard holdings rule caller stores)
  notAsked : ¬AsksStores rule caller stores → v.stores.perStore = none
  rule : v.ruleId = rule.id

end authorized

/-! ### The reason tells whether access is granted -/

section reasons

variable {wildcard : String} {holdings : Holdings} {rule : Rule} {caller : Caller} {stores : List ℤ}
  {reason : Reason}

theorem word_injective {s t : Scope} (h : Value.text s.word = .text t.word) : s = t := by
  cases s <;> cases t <;> first | rfl | (revert h; simp [Scope.word])

section scopes

variable (role : ¬HasRole caller rule.rolesAny)

include role

theorem authorized_none_iff (scope : rule.scope = .text Scope.none.word) :
    Authorized wildcard holdings rule caller stores ↔ SatisfiesGlobally wildcard rule caller := by
  constructor
  · intro h
    cases h with
    | role h => exact absurd h role
    | global _ h => exact h
    | noStore scope' | someStore scope' | eachStore scope' | bypassRole scope'
    | bypassPermission scope'
    | allStores scope' => cases word_injective (scope.symm.trans scope')
  · exact .global scope

theorem authorized_perStore_iff (scope : rule.scope = .text Scope.perStore.word) :
    Authorized wildcard holdings rule caller stores ↔
      (stores = [] ∧ rule.allowsEmpty.isTruthy = true ∧ SatisfiesGlobally wildcard rule caller) ∨
        (rule.matching = .text Matching.any.word ∧
          ∃ store ∈ stores, SatisfiesIn wildcard holdings rule caller store) ∨
        (rule.matching ≠ .text Matching.any.word ∧ stores ≠ [] ∧
          ∀ store ∈ stores, SatisfiesIn wildcard holdings rule caller store) := by
  constructor
  · intro h
    cases h with
    | role h => exact absurd h role
    | noStore _ none allowed h => exact .inl ⟨none, allowed, h⟩
    | someStore _ matching h => exact .inr (.inl ⟨matching, h⟩)
    | eachStore _ matching some h => exact .inr (.inr ⟨matching, some, h⟩)
    | global scope' | bypassRole scope' | bypassPermission scope' | allStores scope' =>
        cases word_injective (scope.symm.trans scope')
  · rintro (⟨none, allowed, h⟩ | ⟨matching, h⟩ | ⟨matching, some, h⟩)
    · exact .noStore scope none allowed h
    · exact .someStore scope matching h
    · exact .eachStore scope matching some h

theorem authorized_allStores_iff (scope : rule.scope = .text Scope.allStores.word) :
    Authorized wildcard holdings rule caller stores ↔
      Bypasses wildcard rule caller ∨
        (IsAssigned holdings caller ∧ SatisfiesGlobally wildcard rule caller) := by
  constructor
  · intro h
    cases h with
    | role h => exact absurd h role
    | bypassRole _ h => exact .inl (.inl h)
    | bypassPermission _ h => exact .inl (.inr h)
    | allStores _ assigned h => exact .inr ⟨assigned, h⟩
    | global scope' | noStore scope' | someStore scope' | eachStore scope' =>
        cases word_injective (scope.symm.trans scope')
  · rintro ((h | h) | ⟨assigned, h⟩)
    · exact .bypassRole scope h
    · exact .bypassPermission scope h
    · exact .allStores scope assigned h

end scopes

theorem AsksGlobally.authorized_iff (asked : AsksGlobally wildcard holdings rule caller stores)
    (role : ¬HasRole caller rule.rolesAny) :
    Authorized wildcard holdings rule caller stores ↔ SatisfiesGlobally wildcard rule caller := by
  cases asked with
  | global scope => exact authorized_none_iff role scope
  | noStore scope none allowed =>
      rw [authorized_perStore_iff role scope]
      simp [none, allowed]
  | allStores scope bypass assigned =>
      rw [authorized_allStores_iff role scope]
      simp [bypass, assigned]

/-- Access is granted exactly for the reasons that grant it. -/
theorem Explains.grants_iff (h : Explains wildcard holdings rule caller stores reason) :
    reason.grants = true ↔ Authorized wildcard holdings rule caller stores := by
  cases h with
  | roles h => exact iff_of_true rfl (.role h)
  | permissionsAny role asked h => exact iff_of_true rfl ((asked.authorized_iff role).mpr (.inl h))
  | permissionsAll role asked _ h =>
      exact iff_of_true rfl ((asked.authorized_iff role).mpr (.inr h))
  | deny role asked h => exact iff_of_false Bool.false_ne_true (mt (asked.authorized_iff role).mp h)
  | denyNoStore role scope none allowed =>
      rw [authorized_perStore_iff role scope]
      simp [none, allowed, Reason.grants]
  | storeAny asked matching h => exact iff_of_true rfl (.someStore asked.scope matching h)
  | denyStoreAny asked matching h =>
      rw [authorized_perStore_iff asked.role asked.scope]
      simpa [matching, asked.some, Reason.grants] using h
  | storeAll asked matching h =>
      exact iff_of_true rfl (.eachStore asked.scope matching asked.some h)
  | denyStoreAll asked matching h =>
      rw [authorized_perStore_iff asked.role asked.scope]
      simpa [matching, asked.some, Reason.grants] using h
  | storeAllAccess _ scope h =>
      exact iff_of_true rfl (h.elim (.bypassRole scope) (.bypassPermission scope))
  | denyAllStores role scope bypass assigned =>
      rw [authorized_allStores_iff role scope]
      simp [bypass, assigned, Reason.grants]
  | denyInvalidMode role scope =>
      refine iff_of_false Bool.false_ne_true fun ha => ?_
      cases ha with
      | role h => exact role h
      | global scope' | noStore scope' | someStore scope' | eachStore scope' | bypassRole scope'
      | bypassPermission scope' | allStores scope' => exact scope _ scope'

end reasons

/-! ### The verdict of an evaluation -/

section evaluation

variable {wildcard : String} {holdings : Holdings} {rule : Rule} {caller : Caller} {stores : List ℤ}
  {abilities permissions held : List String}

theorem allowsAny_iff : allowsAny (allowance wildcard abilities) permissions = true ↔
    AllowsSome wildcard abilities permissions := by
  unfold allowsAny allowance AllowsSome
  by_cases hfree : abilities = [] ∨ wildcard ∈ abilities
  · have hcond : (abilities.isEmpty || abilities.contains wildcard) = true := by simpa using hfree
    rw [if_pos hcond, ← or_assoc]
    exact iff_of_true rfl (.inl hfree)
  · have hcond : ¬(abilities.isEmpty || abilities.contains wildcard) = true := by simpa using hfree
    rw [if_neg hcond, ← or_assoc, or_iff_right hfree]
    simp

theorem allowsAll_iff : allowsAll (allowance wildcard abilities) permissions = true ↔
    AllowsEach wildcard abilities permissions := by
  unfold allowsAll allowance AllowsEach
  by_cases hfree : abilities = [] ∨ wildcard ∈ abilities
  · have hcond : (abilities.isEmpty || abilities.contains wildcard) = true := by simpa using hfree
    rw [if_pos hcond, ← or_assoc]
    exact iff_of_true rfl (.inl hfree)
  · have hcond : ¬(abilities.isEmpty || abilities.contains wildcard) = true := by simpa using hfree
    rw [if_neg hcond, ← or_assoc, or_iff_right hfree]
    simp

theorem meetsAny_iff : meetsAny rule held (allowance wildcard abilities) = true ↔
    SatisfiesAny wildcard abilities held rule := by
  unfold meetsAny SatisfiesAny
  rw [Bool.and_eq_true, allowsAny_iff]
  simp

theorem meetsAll_iff : meetsAll rule held (allowance wildcard abilities) = true ↔
    SatisfiesAll wildcard abilities held rule := by
  unfold meetsAll SatisfiesAll
  rw [Bool.and_eq_true, Bool.and_eq_true, allowsAll_iff]
  simp [and_assoc]

theorem authorized_permissionVerdict (found : StoreMeta) :
    (permissionVerdict wildcard rule held abilities found).authorized = true ↔
      Satisfies wildcard abilities held rule := by
  unfold permissionVerdict allowedVerdict Satisfies
  rw [← meetsAny_iff, ← meetsAll_iff]
  split
  · next h => exact iff_of_true rfl (.inl h)
  · next h =>
      rw [or_iff_right h]
      split
      · next h => exact iff_of_true rfl h
      · next h => exact iff_of_false Bool.false_ne_true h

theorem explained_verdict {reason : Reason} {found : StoreMeta}
    (h : Explains wildcard holdings rule caller stores reason)
    (asked : AsksStores rule caller stores →
      found.perStore = some (answersByStore wildcard holdings rule caller stores))
    (notAsked : ¬AsksStores rule caller stores → found.perStore = none) :
    Explained wildcard holdings rule caller stores
      (verdict rule reason.grants reason (reason.permissions rule) found) where
  authorized := h.grants_iff
  reason := ⟨reason, h, rfl, rfl⟩
  grants := fun _ hother => congrArg Reason.grants (Reason.code_injective hother)
  asked := asked
  notAsked := notAsked
  rule := rfl

/-- Global permissions explain the verdict when the rule is decided by them. -/
theorem explained_permissionVerdict (role : ¬HasRole caller rule.rolesAny)
    (asked : AsksGlobally wildcard holdings rule caller stores) (mode : String) :
    Explained wildcard holdings rule caller stores
      (permissionVerdict wildcard rule caller.permissions caller.abilities (.ofMode mode)) := by
  have hnot : ¬AsksStores rule caller stores := by
    intro hstores
    cases asked with
    | global scope => cases word_injective (scope.symm.trans hstores.scope)
    | noStore _ none _ => exact hstores.some none
    | allStores scope _ _ => cases word_injective (scope.symm.trans hstores.scope)
  have hexplained : ∀ {reason : Reason}, Explains wildcard holdings rule caller stores reason →
      Explained wildcard holdings rule caller stores
        (verdict rule reason.grants reason (reason.permissions rule) (.ofMode mode)) :=
    fun h => explained_verdict h (fun hstores => absurd hstores hnot) fun _ => rfl
  unfold permissionVerdict allowedVerdict
  split
  · next any => exact hexplained (.permissionsAny role asked (meetsAny_iff.mp any))
  · next any =>
      rw [meetsAny_iff] at any
      split
      · next all => exact hexplained (.permissionsAll role asked any (meetsAll_iff.mp all))
      · next all =>
          rw [meetsAll_iff] at all
          exact hexplained (.deny role asked (not_or.mpr ⟨any, all⟩))

/-! ### Stores -/

section stores

variable {m : Type → Type} [Monad m] [LawfulMonad m]

theorem allowsIn_source (store : ℤ) :
    allowsIn (holdings.source : PermissionSource m) wildcard rule caller (.int store) =
    pure (decide (SatisfiesIn wildcard holdings rule caller store)) := by
  have hverdict : (permissionVerdict wildcard rule (heldIn holdings caller store) caller.abilities
      (.ofMode Scope.none.label)).authorized =
        decide (SatisfiesIn wildcard holdings rule caller store) := by
    rw [Bool.eq_iff_iff, authorized_permissionVerdict, decide_eq_true_iff]
    rfl
  rw [← hverdict]
  unfold allowsIn heldIn Holdings.source
  split <;> simp only [pure_bind]

theorem set_known (answer : ℤ → Bool) {kept : List ℤ} {store : ℤ} (h : store ∈ kept) :
    StoreAnswers.set (kept.map fun n => (.int n, answer n)) (.int store) (answer store) =
      kept.map fun n => (.int n, answer n) := by
  induction kept with
  | nil => cases h
  | cons n kept ih =>
      rw [List.map_cons, StoreAnswers.set, Value.alike_int]
      by_cases hn : n = store
      · rw [decide_eq_true hn, if_pos rfl, hn]
      · rw [decide_eq_false hn, if_neg Bool.false_ne_true,
          ih (List.mem_of_ne_of_mem (Ne.symm hn) h)]

theorem set_unknown (answer : ℤ → Bool) {kept : List ℤ} {store : ℤ} (h : store ∉ kept) :
    StoreAnswers.set (kept.map fun n => (.int n, answer n)) (.int store) (answer store) =
      (kept ++ [store]).map fun n => (.int n, answer n) := by
  have hkept : ∀ ns : List ℤ, (ns.map fun n => (Value.int n, answer n)) =
      (ns.map fun n => (n, answer n)).map storeAnswer :=
    fun ns => by rw [List.map_map]; rfl
  have hnew : store ∉ (kept.map fun n => (n, answer n)).map Prod.fst := by
    rw [List.map_map]
    simpa using h
  rw [hkept, StoreAnswers.set_new hnew, hkept]
  simp

variable [MonadExceptOf Failure m]

/-- Stores that are asked one after the other are answered once each, in the order of the
request. -/
theorem answersFor_source (stores kept : List ℤ) :
    answersFor (holdings.source : PermissionSource m) wildcard rule caller
        (kept.reverse.map fun n => (.int n, decide (SatisfiesIn wildcard holdings rule caller n)))
          (stores.map .int) =
      pure ((stores.foldl (fun kept n => if kept.contains n then kept else n :: kept)
        kept).reverse.map fun n =>
        (.int n, decide (SatisfiesIn wildcard holdings rule caller n))) := by
  induction stores generalizing kept with
  | nil => rfl
  | cons store stores ih =>
      rw [List.map_cons, answersFor, allowsIn_source, pure_bind, if_pos (by rfl), List.foldl_cons]
      by_cases hmem : store ∈ kept
      · rw [set_known (fun n => decide (SatisfiesIn wildcard holdings rule caller n))
          (List.mem_reverse.mpr hmem),
          if_pos (List.contains_iff_mem.mpr hmem)]
        exact ih kept
      · rw [set_unknown (fun n => decide (SatisfiesIn wildcard holdings rule caller n))
          (mt List.mem_reverse.mp hmem),
          if_neg (mt List.contains_iff_mem.mp hmem), ← List.reverse_cons]
        exact ih (store :: kept)

/-- The answers for the stores of a request explain the verdict on them. -/
theorem explained_combined (asked : AsksStores rule caller stores) :
    Explained wildcard holdings rule caller stores
      (combined rule (stores.map .int) (answersByStore wildcard holdings rule caller stores)) := by
  have hexplained : ∀ {reason : Reason}, Explains wildcard holdings rule caller stores reason →
      Explained wildcard holdings rule caller stores
        (verdict rule reason.grants reason (reason.permissions rule)
        ⟨stores.map .int, .text Scope.perStore.label,
         some (answersByStore wildcard holdings rule caller stores)⟩) :=
    fun h => explained_verdict h (fun _ => rfl) fun hnot => absurd asked hnot
  have hany : (answersByStore wildcard holdings rule caller stores).any (·.2) = true ↔
      ∃ store ∈ stores, SatisfiesIn wildcard holdings rule caller store := by
    simp [answersByStore, mem_distinct]
  have hall : (answersByStore wildcard holdings rule caller stores).all (·.2) = true ↔
      ∀ store ∈ stores, SatisfiesIn wildcard holdings rule caller store := by
    simp [answersByStore, mem_distinct]
  unfold combined
  by_cases matching : rule.matching = .text Matching.any.word
  · have hmatching : Matching.ofValue rule.matching = .any := by rw [matching]; rfl
    rw [hmatching]
    dsimp only
    split
    · next h => exact hexplained (.storeAny asked matching (hany.mp h))
    · next h =>
        rw [hany] at h
        exact hexplained (.denyStoreAny asked matching fun store hstore hs => h ⟨store, hstore, hs⟩)
  · have hmatching : Matching.ofValue rule.matching = .all := by
      cases hvalue : rule.matching with
      | text s => exact if_neg fun hs => matching (by rw [hvalue, hs])
      | _ => rfl
    rw [hmatching]
    dsimp only
    split
    · next h => exact hexplained (.storeAll asked matching (hall.mp h))
    · next h =>
        rw [hall] at h
        push Not at h
        exact hexplained (.denyStoreAll asked matching h)

end stores

/-! ### Evaluations -/

theorem hasRole_iff (roles : List String) :
    roles.any caller.roles.contains = true ↔ HasRole caller roles := by
  simp [HasRole]

theorem bypasses_iff : bypasses wildcard rule caller = true ↔ Bypasses wildcard rule caller := by
  unfold bypasses Bypasses HasBypassPermission coversAny
  rw [Bool.or_eq_true, Bool.and_eq_true, hasRole_iff, allowsAny_iff]
  simp

variable {m : Type → Type} [Monad m] [LawfulMonad m]

/-- The verdict of a rule for all stores is explained. -/
theorem allStoresVerdict_explained (role : ¬HasRole caller rule.rolesAny)
    (scope : rule.scope = .text Scope.allStores.word) :
    ∃ v, allStoresVerdict holdings.source wildcard rule caller = (pure v : m Verdict) ∧
      Explained wildcard holdings rule caller stores v := by
  have hnot : ¬AsksStores rule caller stores :=
    fun asked => by cases word_injective (scope.symm.trans asked.scope)
  unfold allStoresVerdict
  by_cases bypass : Bypasses wildcard rule caller
  · rw [if_pos (bypasses_iff.mpr bypass)]
    exact ⟨_, rfl,
      explained_verdict (.storeAllAccess role scope bypass) (fun asked => absurd asked hnot)
      fun _ => rfl⟩
  · rw [if_neg (mt bypasses_iff.mp bypass)]
    cases absent : caller.userId.isNull with
    | true =>
        have assigned : ¬IsAssigned holdings caller :=
          fun h => Bool.false_ne_true (h.1.symm.trans absent)
        simp only [if_true, pure_bind, if_neg Bool.false_ne_true]
        exact ⟨_, rfl, explained_verdict (.denyAllStores role scope bypass assigned)
          (fun asked => absurd asked hnot) fun _ => rfl⟩
    | false =>
        simp only [if_neg Bool.false_ne_true, Holdings.source, pure_bind]
        by_cases assigned : holdings.hasAllStores caller.userId = true
        · rw [if_pos assigned]
          exact ⟨_, rfl,
            explained_permissionVerdict role (.allStores scope bypass ⟨absent, assigned⟩) _⟩
        · rw [if_neg assigned]
          exact ⟨_, rfl, explained_verdict (.denyAllStores role scope bypass fun h => assigned h.2)
            (fun asked => absurd asked hnot) fun _ => rfl⟩

variable [MonadExceptOf Failure m]

/-- The verdict of a rule for single stores is explained. -/
theorem scopedVerdict_explained (role : ¬HasRole caller rule.rolesAny)
    (scope : rule.scope = .text Scope.perStore.word) :
    ∃ v, scopedVerdict holdings.source wildcard rule caller (stores.map .int) =
      (pure v : m Verdict) ∧
      Explained wildcard holdings rule caller stores v := by
  unfold scopedVerdict
  by_cases none : stores = []
  · have hnot : ¬AsksStores rule caller stores := fun asked => asked.some none
    rw [if_pos (by simp [none])]
    cases allowed : rule.allowsEmpty.isTruthy with
    | true =>
        rw [if_pos rfl]
        exact ⟨_, rfl, explained_permissionVerdict role (.noStore scope none allowed) _⟩
    | false =>
        rw [if_neg Bool.false_ne_true]
        exact ⟨_, rfl, explained_verdict (.denyNoStore role scope none allowed)
          (fun asked => absurd asked hnot) fun _ => rfl⟩
  · rw [if_neg (by simpa using none), show ([] : StoreAnswers) = (([] : List ℤ).reverse.map fun n =>
      (Value.int n, decide (SatisfiesIn wildcard holdings rule caller n))) from rfl,
        answersFor_source stores [], pure_bind]
    exact ⟨_, rfl, explained_combined ⟨role, scope, none⟩⟩

end evaluation

/-- An evaluation of a rule whose scope is a text gives a verdict, whatever the caller, the stores
and what is held, and the verdict says who is authorized and why. -/
theorem evaluate_explained {m : Type → Type} [Monad m] [LawfulMonad m] [MonadExceptOf Failure m]
    (wildcard : String) (holdings : Holdings) (rule : Rule) (caller : Caller) (stores : List ℤ)
    {word : String} (hscope : rule.scope = .text word) :
    ∃ v, evaluate holdings.source wildcard rule caller (stores.map .int) = (pure v : m Verdict) ∧
      Explained wildcard holdings rule caller stores v := by
  unfold evaluate
  by_cases role : HasRole caller rule.rolesAny
  · obtain ⟨mode, hmode⟩ := exists_modeLabel word
    rw [if_pos ((hasRole_iff _).mpr role), hscope, hmode]
    exact ⟨_, rfl,
      explained_verdict (.roles role) (fun asked => absurd role asked.role) fun _ => rfl⟩
  · rw [if_neg (mt (hasRole_iff _).mp role)]
    have hread : Scope.ofValue rule.scope = Scope.read word := by rw [hscope]; rfl
    cases hs : Scope.read word with
    | none =>
        have hother : ∀ s : Scope, rule.scope ≠ .text s.word := by
          intro s h
          have hword : word = s.word := by simpa using hscope.symm.trans h
          rw [Scope.read_eq_some_iff.mpr hword] at hs
          cases hs
        rw [hread, hs]
        exact ⟨_, rfl, explained_verdict (.denyInvalidMode role hother)
          (fun asked => absurd asked.scope (hother _)) fun _ => rfl⟩
    | some s =>
        have hword : rule.scope = .text s.word :=
          hscope.trans (congrArg _ (Scope.read_eq_some_iff.mp hs))
        rw [hread, hs]
        cases s with
        | none => exact ⟨_, rfl, explained_permissionVerdict role (.global hword) _⟩
        | perStore => exact scopedVerdict_explained role hword
        | allStores => exact allStoresVerdict_explained role hword

/-- A rule for the clerks who may read orders in some store of the request. -/
def orderRule : Rule where
  id := .int 1
  service := .text "orders"
  method := .text "GET"
  priority := .int 0
  routeName := .null
  pattern := .text "/orders"
  expression := .null
  scope := .text "scoped"
  sources := Stores.Sources.none
  matching := .text "any"
  allowsEmpty := .bool false
  rolesAny := ["admin"]
  permissionsAny := ["orders.read"]
  permissionsAll := []
  bypassRoles := []
  bypassPermissions := []

/-- Users may read orders in the fifth store only. -/
def orderHoldings : Holdings where
  inStore := fun _ store => if store.alike (.int 5) then ["orders.read"] else []
  hasAllStores := fun _ => false

/-- A user is authorized by a store that stands behind a repeated one. -/
theorem evaluate_explained_laterStore : orderRule.scope = .text "scoped" ∧
    ∃ v, evaluate orderHoldings.source "*" orderRule ⟨.int 7, [], [], []⟩ ([3, 3, 5].map .int) =
        (pure v : Except Failure Verdict) ∧
      Explained "*" orderHoldings orderRule ⟨.int 7, [], [], []⟩ [3, 3, 5] v ∧
        v.authorized = true := by
  obtain ⟨v, hv, hexplained⟩ := evaluate_explained (m := Except Failure) "*" orderHoldings orderRule
    ⟨.int 7, [], [], []⟩ [3, 3, 5] rfl
  refine ⟨rfl, v, hv, hexplained, hexplained.authorized.mpr (.someStore rfl rfl ⟨5, by decide, ?_⟩)⟩
  exact .inl ⟨⟨"orders.read", by decide⟩, .inl rfl⟩

end Policy
end AccessControl
