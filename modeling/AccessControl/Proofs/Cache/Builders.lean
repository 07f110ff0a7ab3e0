import AccessControl.Proofs.Cache.Confined
import AccessControl.Proofs.Cache.Facts
import Mathlib

/-! # Which keys are the same

A call asks for a key by numbers and texts (`KeyCall`).  What it makes is told apart by the call, by
the facts of a decision as sets, and by the epoch of the store that permissions are looked up in
(`Makes.key_eq_iff`).  So two calls give one key exactly when they are the same, whatever the caches
are that they are put to (`build_eq_iff`). -/

namespace AccessControl
namespace Cache

/-! ### Facts as arguments -/

namespace Facts

/-- The facts as the named arguments of a call. -/
def arguments (f : Facts) : Fields :=
  [("rule_id", .int f.rule), ("service", .text f.service), ("method", .text f.method),
   ("target", .text f.target),
    ("user_id", .int f.user), ("store_ids", Value.ints f.stores),
      ("abilities", Value.texts f.abilities),
    ("roles", Value.texts f.roles), ("permissions", Value.texts f.permissions)]

/-- Named arguments are taken as the facts that they are, in any order of stores and names. -/
theorem read_arguments (f : Facts) : DecisionFacts.read f.arguments = .ok f.given := by
  have hnames : (!f.arguments.all (fun g => DecisionFacts.names.contains g.1) ||
      !DecisionFacts.requiredNames.all fun name => (f.arguments.get? name).isSome) = false := by rfl
  unfold DecisionFacts.read
  rw [hnames]
  change (do
    let roles ← (Value.texts f.roles).sortedMembers
    let permissions ← (Value.texts f.permissions).sortedMembers
    let stores ← (Value.ints f.stores).sortedMembers
    let abilities ← (Value.texts f.abilities).sortedMembers
    return ⟨.int f.rule, .text f.service, .text f.method, .text f.target, .int f.user, stores,
      abilities, roles,
      permissions⟩ : Except Failure DecisionFacts) = _
  rw [Value.sortedMembers_texts, Value.sortedMembers_texts, Value.sortedMembers_texts,
    Value.sortedMembers_ints]
  rfl

end Facts

/-! ### Calls -/

/-- A call for a key. -/
inductive KeyCall where
  | version
  | epoch (store : ℤ)
  | rules (version : ℤ) (service method : String)
  | decision (version : ℤ) (facts : Facts)
  | permissions (user store : ℤ)
  | allStores (user : ℤ)

namespace KeyCall

/-- The key that a cache gives for a call. -/
def build : KeyCall → CacheM String
  | version => return versionKey (← get).space
  | epoch store => return epochKey (← get).space (.int store)
  | rules n service method => return rulesKey (← get).space (.int n) (.text service) (.text method)
  | decision n facts => do
    let given ← DecisionFacts.read facts.arguments
    return decisionKey (← get).space (.int n) given
  | permissions user store => currentPermissionsKey (.int user) (.int store)
  | allStores user => currentAllStoresKey (.int user)

/-- The epoch under which a call looks: only permissions in a store have one. -/
def epochIn (c : Cache) : KeyCall → Option ℤ
  | permissions _ store => (outcome (storeEpoch (.int store)) c).1.toOption
  | _ => none

/-- The text that goes into a digest. -/
def digested : KeyCall → Option String
  | rules _ service method => some (rulesText service method)
  | decision _ facts => some facts.text
  | _ => none

/-- The calls are the same, stores and names as sets. -/
def Same : KeyCall → KeyCall → Prop
  | decision n f, decision k g => n = k ∧ f.Alike g
  | a, b => a = b

/-- The key that a call makes under an epoch. -/
inductive Makes : KeyCall → Option ℤ → Key → Prop
  | version : Makes .version none .version
  | epoch (store : ℤ) : Makes (.epoch store) none (.epoch store)
  | rules (n : ℤ) (service method : String) :
      Makes (.rules n service method) none (.rules n (rulesText service method))
  | decision (n : ℤ) (facts : Facts) : Makes (.decision n facts) none (.decision n facts.text)
  | permissions (user store e : ℤ) :
      Makes (.permissions user store) (some e) (.permissions user store e)
  | allStores (user : ℤ) : Makes (.allStores user) none (.allStores user)

variable {a b : KeyCall} {e e' : Option ℤ} {k l : Key}

/-- Keys of texts that are not digested alike by chance are told apart by what they are made of. -/
theorem Makes.key_eq_iff (ha : Makes a e k) (hb : Makes b e' l) : k = l ↔ a.Same b ∧ e = e' := by
  cases ha <;> cases hb
  case rules.rules n service method n' service' method' =>
    simp only [Key.rules.injEq, Same, KeyCall.rules.injEq, and_true]
    refine and_congr_right fun _ => ⟨rulesText_inj, ?_⟩
    rintro ⟨rfl, rfl⟩
    rfl
  case decision.decision n f n' g =>
    simp only [Key.decision.injEq, Same, and_true, Facts.text_eq_iff]
  case permissions.permissions => simp [Same, and_assoc]
  all_goals simp [Same]

theorem Makes.sameDigest (ha : a.Makes e k) (hb : b.Makes e' l) {T : Set String}
    (hT : Set.InjOn Digest.sha256Hex T) (hta : ∀ t ∈ a.digested, t ∈ T)
    (htb : ∀ t ∈ b.digested, t ∈ T) : Key.SameDigest k l := by
  cases ha <;> cases hb
  case rules.rules => exact hT (hta _ rfl) (htb _ rfl)
  case decision.decision => exact hT (hta _ rfl) (htb _ rfl)
  all_goals trivial

theorem Makes.text_eq_iff (ha : a.Makes e k) (hb : b.Makes e' l) {T : Set String}
    (hT : Set.InjOn Digest.sha256Hex T) (hta : ∀ t ∈ a.digested, t ∈ T)
    (htb : ∀ t ∈ b.digested, t ∈ T) {space : String} :
    k.text space = l.text space ↔ a.Same b ∧ e = e' := by
  rw [← ha.key_eq_iff hb]
  exact ⟨Key.text_inj (ha.sameDigest hb hT hta htb), congrArg _⟩

end KeyCall

/-! ### Keys that are built -/

namespace KeyCall

/-- What a cache builds for a call, if it does not fail, is a key that the call makes under
the epoch found there. -/
theorem makes_of_build {a : KeyCall} {c : Cache} {text : String}
    (h : (outcome a.build c).1 = .ok text) :
    ∃ k, a.Makes (a.epochIn c) k ∧ k.text c.space = text := by
  cases a with
  | version => exact ⟨_, .version, Except.ok.inj h⟩
  | epoch store => exact ⟨_, .epoch store, Except.ok.inj h⟩
  | rules n service method =>
      have hkey : rulesKey c.space (.int n) (.text service) (.text method) = text := Except.ok.inj h
      exact ⟨_, .rules n service method, hkey⟩
  | decision n facts =>
      dsimp only [build] at h
      rw [facts.read_arguments] at h
      have hkey : decisionKey c.space (.int n) facts.given = text := Except.ok.inj h
      exact ⟨_, .decision n facts, hkey⟩
  | allStores user => exact ⟨_, .allStores user, Except.ok.inj h⟩
  | permissions user store =>
      have hspace := (confined_readCounter ((Key.epoch store).text c.space)).space c
      dsimp only [build, epochIn] at h ⊢
      rw [currentPermissionsKey, outcome_bind, outcome_storeEpoch] at h
      rw [outcome_storeEpoch]
      revert h hspace
      rcases outcome (readCounter ((Key.epoch store).text c.space)) c with ⟨r, c'⟩
      intro h hspace
      rw [← hspace]
      cases r with
      | error e => cases h
      | ok e =>
          have hkey : permissionsKey c'.space (.int user) (.int store) e = text := Except.ok.inj h
          exact ⟨_, .permissions user store e, hkey⟩

/-- In two caches of one space, two calls give one key exactly when they are the same and look under
the same epoch, as far as different texts have different digests. -/
theorem build_eq_iff {T : Set String} (hT : Set.InjOn Digest.sha256Hex T) {a b : KeyCall}
    {c c' : Cache} {text text' : String} (hspace : c.space = c'.space)
    (hta : ∀ t ∈ a.digested, t ∈ T) (htb : ∀ t ∈ b.digested, t ∈ T)
    (htext : (outcome a.build c).1 = .ok text) (htext' : (outcome b.build c').1 = .ok text') :
    text = text' ↔ a.Same b ∧ a.epochIn c = b.epochIn c' := by
  obtain ⟨k, hk, rfl⟩ := makes_of_build htext
  obtain ⟨l, hl, rfl⟩ := makes_of_build htext'
  rw [← hspace]
  exact hk.text_eq_iff hl hT hta htb

end KeyCall

end Cache
end AccessControl
