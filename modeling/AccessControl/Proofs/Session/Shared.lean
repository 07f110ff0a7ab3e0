import AccessControl.Proofs.Cache.Builders
import AccessControl.Proofs.Session.Moments
import Mathlib

/-! # Who shares a decision

Two authorizations look for their decisions under one key exactly when they agree on all that goes
into it (`Asking.key_eq_iff`), and the evaluation of a rule depends on nothing else
(`Asking.Agrees.verdict_eq`).  In a run the rules are the same as long as the version is
(`rules_eq`), so that authorizations that agree ask one rule (`Asking.Agrees.rule_eq`).  Hence
nobody is given a decision that was made for somebody else (`decisions_told_apart`). -/

namespace AccessControl
namespace Session

open Cache Database

/-! ### Authorizations that ask -/

/-- An authorization of a user, and what it asks for in a session. -/
structure Asking (s : Session) where
  request : Request
  user : ℤ
  roles : List String
  permissions : List String
  abilities : List String
  asked : Asked
  after : Session
  hquestion : outcome (question request (callerOf (some user) roles permissions abilities)) s =
    (.ok (.inr asked), after)

namespace Asking

section

variable {s s' : Session} (a : Asking s) (b : Asking s')

/-- Who asks. -/
def caller : Caller := callerOf (some a.user) a.roles a.permissions a.abilities

/-- The key under which the decision is looked for. -/
def key : String := a.asked.key a.after.cache.space a.request a.caller

/-- The verdict that the evaluation gives by a source of permissions. -/
def verdict (source : Policy.PermissionSource (Except Failure)) (wildcard : String) :
    Except Failure Verdict :=
  Policy.evaluate source wildcard a.asked.rule a.caller (a.asked.stores.map .int)

/-- What the decision is about, for a rule with a number. -/
def facts (rule : ℤ) : Facts where
  rule := rule
  service := Text.lower a.request.service.display
  method := a.asked.method
  target := a.request.target
  user := a.user
  stores := a.asked.stores
  abilities := a.abilities
  roles := a.roles
  permissions := a.permissions

/-- The authorizations agree on all that a decision is about, stores and names as sets. -/
structure Agrees : Prop where
  version : a.asked.version = b.asked.version
  rule : a.asked.rule.id = b.asked.rule.id
  service : Text.lower a.request.service.display = Text.lower b.request.service.display
  method : a.asked.method = b.asked.method
  target : a.request.target = b.request.target
  user : a.user = b.user
  stores : ∀ n, n ∈ a.asked.stores ↔ n ∈ b.asked.stores
  abilities : ∀ name, name ∈ a.abilities ↔ name ∈ b.abilities
  roles : ∀ name, name ∈ a.roles ↔ name ∈ b.roles
  permissions : ∀ name, name ∈ a.permissions ↔ name ∈ b.permissions

/-- The authorization takes place at a moment of a run. -/
def Occurs (actions : List Action) (k : ℕ) : Prop :=
  actions[k]? = some (.authorize a.request (some a.user) a.roles a.permissions a.abilities)

variable {a b}

/-! ### Keys -/

theorem key_eq {rule : ℤ} (hrule : a.asked.rule.id = .int rule) :
    a.key = (Key.decision a.asked.version (a.facts rule).text).text a.after.cache.space := by
  unfold key Asked.key
  rw [hrule, Key.text_decision]
  rfl

/-- Two authorizations look under one key exactly when they agree. -/
theorem key_eq_iff {T : Set String} (hT : Set.InjOn Digest.sha256Hex T)
    (hspace : a.after.cache.space = b.after.cache.space) {rule rule' : ℤ}
    (hrule : a.asked.rule.id = .int rule) (hrule' : b.asked.rule.id = .int rule')
    (htext : (a.facts rule).text ∈ T) (htext' : (b.facts rule').text ∈ T) :
    a.key = b.key ↔ a.Agrees b := by
  have hdigested : ∀ (n : ℤ) (f : Facts), f.text ∈ T → ∀ t ∈ (KeyCall.decision n f).digested,
      t ∈ T := by
    intro n f hf t ht
    obtain rfl : f.text = t := Option.some.inj ht
    exact hf
  rw [key_eq hrule, key_eq hrule', ← hspace,
    (KeyCall.Makes.decision _ _).text_eq_iff (.decision _ _) hT
    (hdigested _ _ htext) (hdigested _ _ htext')]
  constructor
  · rintro ⟨⟨hversion, h⟩, -⟩
    have hsame : rule = rule' := h.rule
    exact ⟨hversion, by rw [hrule, hrule', hsame], h.service, h.method, h.target, h.user, h.stores,
      h.abilities, h.roles, h.permissions⟩
  · intro h
    have hsame : rule = rule' := by simpa [hrule, hrule'] using h.rule
    exact ⟨⟨h.version, hsame, h.service, h.method, h.target, h.user, h.stores, h.abilities, h.roles,
      h.permissions⟩, rfl⟩

/-! ### Verdicts -/

/-- The stores are those of the request, in ascending order. -/
theorem pairwise_stores (a : Asking s) : a.asked.stores.Pairwise (· < ·) := by
  have h := a.hquestion
  unfold question at h
  obtain ⟨s₀, s₁, -, h⟩ := outcome_bind_eq_ok h
  dsimp only at h
  obtain ⟨method, s₂, -, h⟩ := outcome_bind_eq_ok h
  split at h
  · cases h
  · obtain ⟨n, s₃, -, h⟩ := outcome_bind_eq_ok h
    obtain ⟨rules, s₄, -, h⟩ := outcome_bind_eq_ok h
    obtain ⟨reported, s₅, -, h⟩ := outcome_bind_eq_ok h
    obtain ⟨found, s₆, -, h⟩ := outcome_bind_eq_ok h
    cases found with
    | none => cases h
    | some rule =>
        obtain ⟨stores, s₇, hread, h⟩ := outcome_bind_eq_ok h
        have hasked : (⟨n, method, rule, stores⟩ : Asked) = a.asked :=
          Sum.inr.inj (Except.ok.inj (congrArg Prod.fst h))
        have hstores := congrArg Prod.fst hread
        rw [outcome_lift] at hstores
        cases hids : Policy.storeIdsFor rule (some a.request.context) with
        | error e =>
            rw [hids] at hstores
            cases hstores
        | ok ids =>
            rw [hids] at hstores
            obtain rfl : ids = stores := Except.ok.inj hstores
            rw [← hasked]
            exact pairwise_storeIdsFor hids

/-- The evaluation of a rule gives authorizations that agree the same verdict. -/
theorem Agrees.verdict_eq (h : a.Agrees b) (hrule : a.asked.rule = b.asked.rule)
    (source : Policy.PermissionSource (Except Failure)) (wildcard : String) :
    a.verdict source wildcard = b.verdict source wildcard := by
  have hstores : a.asked.stores = b.asked.stores :=
    List.Pairwise.eq_of_mem_iff a.pairwise_stores b.pairwise_stores h.stores
  have halike : Policy.Alike a.caller b.caller :=
    ⟨congrArg Value.int h.user, h.roles, h.permissions, h.abilities⟩
  unfold verdict
  rw [hrule, hstores, Policy.evaluate_congr halike]

end

/-! ### Rules in a run -/

section run

variable {s : Session} {actions : List Action} {j k left : ℕ} {a : Asking (stateAt s actions j)}
  {b : Asking (stateAt s actions k)} (ha : a.Occurs actions j) (hb : b.Occurs actions k)
    (hs : s.Fresh false left)
  (hrules : Table.rules.Keyed s.tables.rules) (hD : Digests (DigestedIn s actions))

theorem Occurs.lt (ha : a.Occurs actions j) : j < actions.length :=
  (List.getElem?_eq_some_iff.mp ha).1

include ha hs hrules hD

theorem Occurs.found {m : View}
    (h : Faithful (DigestedIn s actions) (Moment s actions j) (stateAt s actions j) m) :
    Kept (stateAt s actions j) a.after ∧
      ∃ m', Faithful (DigestedIn s actions) (Moment s actions j) a.after m' ∧
      KeepsVersion s.cache.space m m' ∧
      Finds s.settings (stateAt s actions j).tables a.request a.caller s.cache.space
        (.ok (.inr a.asked)) m' := by
  obtain ⟨m₀, -, hages⟩ := faithful_stateAt hs hrules hD ha.lt.le
  have hknown : ∀ topic text, Digested (stateAt s actions j).tables a.request a.caller topic text →
      DigestedIn s actions topic text := fun topic text hdigested => ⟨j, _, ha, hdigested⟩
  obtain ⟨r, s', m', hrun, hkept, h', hfinds, hversion⟩ := gives_question h hD hknown
  obtain ⟨rfl, rfl⟩ : Except.ok (.inr a.asked) = r ∧ a.after = s' :=
    Prod.ext_iff.mp (a.hquestion.symm.trans hrun)
  rw [hages.space] at hversion
  rw [hages.settings, hages.space] at hfinds
  exact ⟨hkept, m', h', hversion, hfinds⟩

theorem Occurs.after_space : a.after.cache.space = s.cache.space := by
  obtain ⟨m, h, hages⟩ := faithful_stateAt hs hrules hD ha.lt.le
  exact (ha.found hs hrules hD h).1.cache.space.trans hages.space

theorem Occurs.exists_row :
    ∃ row ∈ (stateAt s actions j).tables.rules, row.restored = .ok a.asked.rule ∧
    a.asked.rule.id = .int row.id ∧ DigestedIn s actions .decision (a.facts row.id).text := by
  obtain ⟨m, h, -⟩ := faithful_stateAt hs hrules hD ha.lt.le
  obtain ⟨-, m', -, -, -, hmethod, -, hruleOf⟩ := ha.found hs hrules hD h
  obtain ⟨rules, hfound, hselect, -⟩ := ruleOf_eq_some hruleOf
  obtain ⟨row, hrow, hrestored⟩ := mem_rulesOf hfound (Rule.mem_of_select hselect)
  have hid : a.asked.rule.id = .int row.id := (restored_spec hrestored).1
  refine ⟨row, hrow, hrestored, hid, j, _, ha, ?_⟩
  have huser : a.caller.userId ≠ .null := by simp [caller, callerOf, Value.ofOption]
  have hdigested :=
    Digested.decision a.asked.method a.asked.rule a.asked.stores hmethod hruleOf huser
  unfold decisionText at hdigested
  rwa [hid] at hdigested

/-- After an authorization that asks under a version, this version stands. -/
theorem Occurs.exists_next : ∃ m,
    Faithful (DigestedIn s actions) (Moment s actions (j + 1)) (stateAt s actions (j + 1)) m ∧
      m (Key.version.text s.cache.space) = some (.int a.asked.version, none) ∧
      (stateAt s actions (j + 1)).tables = (stateAt s actions j).tables := by
  obtain ⟨m, h, hages⟩ := faithful_stateAt hs hrules hD ha.lt.le
  obtain ⟨hkept, m', h', -, hfinds⟩ := ha.found hs hrules hD h
  have hspace : a.after.cache.space = s.cache.space := hkept.cache.space.trans hages.space
  have hn := hfinds.1
  rw [← hspace, ← hages.settings, ← hkept.settings, ← hkept.tables] at hfinds
  have hpresent : Moment s actions j a.after.tables a.after.cache.clock :=
    ⟨j, le_rfl, hkept.tables, hkept.cache.clock⟩
  have hknown : ∀ topic text, Digested a.after.tables a.request a.caller topic text →
      DigestedIn s actions topic text := by
    intro topic text hdigested
    rw [hkept.tables] at hdigested
    exact ⟨j, _, ha, hdigested⟩
  obtain ⟨r, s₂, m₂, hrun, hkept₂, h₂, -, hkeeps⟩ :=
    gives_conclude h' hD hpresent (numbered_callerOf ..) hknown hfinds
  have hquestion : outcome (question a.request a.caller) (stateAt s actions j) =
      (.ok (.inr a.asked), a.after) := a.hquestion
  have hnext : stateAt s actions (j + 1) = s₂ := by
    rw [stateAt_succ ha]
    change (outcome (authorize true a.request a.caller) (stateAt s actions j)).2 = s₂
    rw [authorize_eq, outcome_bind, hquestion, andThen_ok]
    exact congrArg Prod.snd hrun
  rw [hspace] at hkeeps
  rw [hnext]
  refine ⟨m₂, h₂.later ((Kept.refl _).passes m₂) h₂.coherent ?_, hkeeps _ hn,
    hkept₂.tables.trans hkept.tables⟩
  exact fun t c ⟨i, hi, hmoment⟩ => ⟨i, by omega, hmoment⟩

include hb

theorem Occurs.rules_eq_of_le (hle : j ≤ k) (hversion : a.asked.version = b.asked.version) :
    (stateAt s actions k).tables.rules = (stateAt s actions j).tables.rules := by
  rcases hle.eq_or_lt with rfl | hlt
  · rfl
  · obtain ⟨m₁, h₁, hn₁, htables⟩ := ha.exists_next hs hrules hD
    obtain ⟨m₂, h₂, hages⟩ := stays_stateAt hD hlt hb.lt.le h₁
    obtain ⟨-, m₃, -, hkeeps, hfinds⟩ := hb.found hs hrules hD h₂
    obtain ⟨m₀, -, hages₀⟩ := faithful_stateAt hs hrules hD (Nat.succ_le_of_lt ha.lt)
    rw [← hages₀.space] at hn₁ hkeeps
    obtain ⟨n, hn, -, hsame⟩ := hages.version _ hn₁
    -- The later authorization reads the version that stands, which is the one of the earlier
    -- authorization.
    have hread := (hkeeps n hn).symm.trans (hages₀.space ▸ hfinds.1)
    obtain rfl : n = b.asked.version := by simpa using hread
    rw [hsame hversion.symm, htables]

end run

section pair

variable {s : Session} {actions : List Action} {j k left : ℕ} {a : Asking (stateAt s actions j)}
  {b : Asking (stateAt s actions k)} (ha : a.Occurs actions j) (hb : b.Occurs actions k)
    (hs : s.Fresh false left)
  (hrules : Table.rules.Keyed s.tables.rules) (hD : Digests (DigestedIn s actions))

include ha hb hs hrules hD

/-- While the version of the rule set is the same, the rules are. -/
theorem rules_eq (hversion : a.asked.version = b.asked.version) :
    (stateAt s actions j).tables.rules = (stateAt s actions k).tables.rules := by
  rcases le_total j k with hle | hle
  · exact (ha.rules_eq_of_le hb hs hrules hD hle hversion).symm
  · exact hb.rules_eq_of_le ha hs hrules hD hle hversion.symm

/-- Authorizations of a run that agree ask one rule. -/
theorem Agrees.rule_eq (h : a.Agrees b) : a.asked.rule = b.asked.rule := by
  obtain ⟨row, hrow, hrestored, hid, -⟩ := ha.exists_row hs hrules hD
  obtain ⟨row', hrow', hrestored', hid', -⟩ := hb.exists_row hs hrules hD
  obtain ⟨m, hfaithful, -⟩ := faithful_stateAt hs hrules hD ha.lt.le
  rw [← rules_eq ha hb hs hrules hD h.version] at hrow'
  have hnumber : row.id = row'.id := by simpa [hid, hid'] using h.rule
  obtain rfl : row = row' := hfaithful.keyed.eq_of_id hrow hrow' hnumber
  exact Except.ok.inj (hrestored.symm.trans hrestored')

end pair

end Asking

/-! ### Decisions -/

/-- Where different texts have different digests, two calls for keys in caches of one space give one
key exactly when they are the same and look under the same epoch; two authorizations look for their
decisions under one key exactly when they agree on all that a decision is about; and then the
evaluation gives them the same verdict, if they ask one rule, as they do in every run. -/
theorem decisions_told_apart {T : Set String} (hT : Set.InjOn Digest.sha256Hex T) :
    (∀ (x y : KeyCall) (c c' : Cache) (text text' : String), c.space = c'.space →
      (∀ t ∈ x.digested, t ∈ T) → (∀ t ∈ y.digested, t ∈ T) →
      (outcome x.build c).1 = .ok text → (outcome y.build c').1 = .ok text' →
        (text = text' ↔ x.Same y ∧ x.epochIn c = y.epochIn c')) ∧
    (∀ (s s' : Session) (a : Asking s) (b : Asking s') (rule rule' : ℤ),
      a.after.cache.space = b.after.cache.space →
      a.asked.rule.id = .int rule → b.asked.rule.id = .int rule' →
      (a.facts rule).text ∈ T → (b.facts rule').text ∈ T →
        (a.key = b.key ↔ a.Agrees b) ∧ (a.Agrees b → a.asked.rule = b.asked.rule →
          ∀ source wildcard, a.verdict source wildcard = b.verdict source wildcard)) ∧
    ∀ (s : Session) (actions : List Action), s.Fresh false actions.length →
      Table.rules.Keyed s.tables.rules →
      (∀ topic text, DigestedIn s actions topic text → text ∈ T) →
        ∀ (j k : ℕ) (a : Asking (stateAt s actions j)) (b : Asking (stateAt s actions k)),
          a.Occurs actions j → b.Occurs actions k → a.key = b.key →
            a.Agrees b ∧ ∀ source wildcard,
              a.verdict source wildcard = b.verdict source wildcard := by
  refine ⟨fun x y c c' text text' hspace hx hy htext htext' =>
    KeyCall.build_eq_iff hT hspace hx hy htext htext',
    fun s s' a b rule rule' hspace hrule hrule' htext htext' => ?_,
      fun s actions hs hrules hin j k a b ha hb hkey => ?_⟩
  · exact ⟨Asking.key_eq_iff hT hspace hrule hrule' htext htext', fun h hsame => h.verdict_eq hsame⟩
  · have hD : Digests (DigestedIn s actions) :=
      fun topic t t' ht ht' => hT (hin topic t ht) (hin topic t' ht')
    obtain ⟨row, -, -, hid, hdigested⟩ := ha.exists_row hs hrules hD
    obtain ⟨row', -, -, hid', hdigested'⟩ := hb.exists_row hs hrules hD
    have hspace : a.after.cache.space = b.after.cache.space :=
      (ha.after_space hs hrules hD).trans (hb.after_space hs hrules hD).symm
    have hagrees : a.Agrees b :=
      (Asking.key_eq_iff hT hspace hid hid' (hin _ _ hdigested) (hin _ _ hdigested')).mp hkey
    exact ⟨hagrees, hagrees.verdict_eq (hagrees.rule_eq ha hb hs hrules hD)⟩

/-- The orders are asked for twice; the second time the roles of the user are named in another
order. -/
def askingTwice : List Action :=
  [.rules (.create readOrders), .event (.assignment (.assign 1 2 1 .null true)),
    .authorize askForOrders (some 1) ["clerk", "viewer"] [] [],
      .authorize askForOrders (some 1) ["viewer", "clerk"] [] []]

/-- What the decision about the orders is about. -/
def orderFacts : Facts := ⟨1, "shop", "GET", "path:/orders", 1, [1], [], ["clerk", "viewer"], []⟩

/-- What is digested for the orders. -/
def orderTexts : Set String := {rulesText "shop" "GET", orderFacts.text}

/-- What is asked for when a user with roles asks for the orders. -/
def askedWith (roles : List String) (s : Session) : Except Failure (Verdict ⊕ Asked) :=
  (outcome (question askForOrders (callerOf (some 1) roles [] [])) s).1

/-- The first rule is asked under the second version about the first store. -/
def asksFirst (r : Except Failure (Verdict ⊕ Asked)) : Bool :=
  match r with
  | .ok (.inr q) =>
      q.version == 2 && q.method == "GET" && q.rule.id.whole? == some 1 && q.stores == [1]
  | _ => false

theorem injOn_orderTexts : Set.InjOn Digest.sha256Hex orderTexts := by
  have hne : Digest.sha256Hex (rulesText "shop" "GET") ≠ Digest.sha256Hex orderFacts.text := by
    decide +kernel
  rintro t (rfl | rfl) t' (rfl | rfl) h
  · rfl
  · exact absurd h hne
  · exact absurd h.symm hne
  · rfl

theorem whole?_int (n : ℤ) : (Value.int n).whole? = some n := rfl

/-- Where the first rule decides about the orders, nothing else is digested for them. -/
theorem mem_orderTexts {t : Tables} {roles : List String}
    (hroles : ∀ name, name ∈ roles ↔ name ∈ ["clerk", "viewer"])
    (hrule : (ruleOf t askForOrders "GET").toOption.join.map (fun p => (p.1.id.whole?, p.2)) =
      some (some 1, [1]))
    {topic : Topic} {text : String}
    (h : Digested t askForOrders (callerOf (some 1) roles [] []) topic text) :
    text ∈ orderTexts := by
  have hget : askForOrders.lookupMethod = .ok "GET" := by rfl
  cases h with
  | rules service method word hservice hmethod hword =>
      obtain rfl : "shop" = service := Value.text.inj hservice
      obtain rfl : "GET" = method := Except.ok.inj (hget.symm.trans hmethod)
      obtain rfl : "GET" = word := Except.ok.inj hword
      exact .inl rfl
  | decision method rule stores hmethod hfound =>
      obtain rfl : "GET" = method := Except.ok.inj (hget.symm.trans hmethod)
      obtain ⟨rules, hrules, hselect, -⟩ := ruleOf_eq_some hfound
      obtain ⟨row, -, hrestored⟩ := mem_rulesOf hrules (Rule.mem_of_select hselect)
      have hid : rule.id = .int row.id := (restored_spec hrestored).1
      rw [hfound] at hrule
      obtain ⟨hone, rfl⟩ : row.id = 1 ∧ stores = [1] := by
        simpa [hid, whole?_int, Except.toOption] using hrule
      have hservice : Text.lower askForOrders.service.display = "shop" := by decide
      have htarget : askForOrders.target = "path:/orders" := by decide
      have halike :
          Facts.Alike ⟨1, Text.lower askForOrders.service.display, "GET", askForOrders.target, 1,
            [1], [], roles,
          []⟩ orderFacts :=
        ⟨rfl, hservice, rfl, htarget, rfl, fun _ => Iff.rfl, fun _ => Iff.rfl, hroles,
         fun _ => Iff.rfl⟩
      have htext : decisionText askForOrders "GET" (callerOf (some 1) roles [] []) rule [1] =
          orderFacts.text := by
        rw [← Facts.text_eq_iff.mpr halike, decisionText, hid, hone]
        rfl
      exact .inr htext

theorem exists_asking {s : Session} {roles : List String}
    (h : asksFirst (askedWith roles s) = true) :
    ∃ a : Asking s, a.request = askForOrders ∧ a.user = 1 ∧ a.roles = roles ∧ a.permissions = [] ∧
      a.abilities = [] ∧
      asksFirst (.ok (.inr a.asked)) = true := by
  unfold askedWith at h
  rcases hrun : outcome (question askForOrders (callerOf (some 1) roles [] [])) s with ⟨r, s'⟩
  rw [hrun] at h
  rcases r with e | v | q
  · cases h
  · cases h
  · exact ⟨⟨askForOrders, 1, roles, [], [], q, s', hrun⟩, rfl, rfl, rfl, rfl, rfl, h⟩

/-- A user who names the roles in another order shares the decision about the orders. -/
theorem decisions_told_apart_orders : Set.InjOn Digest.sha256Hex orderTexts ∧
    ∃ (a : Asking (stateAt oneStore askingTwice 2)) (b : Asking (stateAt oneStore askingTwice 3)),
      a.Occurs askingTwice 2 ∧ b.Occurs askingTwice 3 ∧ a.key = b.key ∧ a.Agrees b ∧
        ∀ source wildcard, a.verdict source wildcard = b.verdict source wildcard := by
  have hfresh : oneStore.Fresh false askingTwice.length :=
    fresh_memory (s := oneStore) rfl rfl List.nodup_nil List.nodup_nil _
  have hswapped : ∀ name, name ∈ ["clerk", "viewer"] ↔ name ∈ ["viewer", "clerk"] := by
    intro name
    simp [or_comm]
  have hin : ∀ topic text, DigestedIn oneStore askingTwice topic text → text ∈ orderTexts := by
    rintro topic text ⟨k, action, hk, hdigested⟩
    rcases k with _ | _ | _ | _ | k
    all_goals cases hk
    · exact hdigested.elim
    · exact hdigested.elim
    · exact mem_orderTexts (fun _ => Iff.rfl) (by decide +kernel) hdigested
    · exact mem_orderTexts (fun name => (hswapped name).symm) (by decide +kernel) hdigested
  have hD : Digests (DigestedIn oneStore askingTwice) :=
    fun topic t t' ht ht' => injOn_orderTexts (hin topic t ht) (hin topic t' ht')
  have hfirst : asksFirst (askedWith ["clerk", "viewer"] (stateAt oneStore askingTwice 2)) =
      true := by decide +kernel
  have hsecond : asksFirst (askedWith ["viewer", "clerk"] (stateAt oneStore askingTwice 3)) =
      true := by decide +kernel
  obtain ⟨a, hrequest, huser, hroles, hpermissions, habilities, hasked⟩ := exists_asking hfirst
  obtain ⟨b, hrequest', huser', hroles', hpermissions', habilities', hasked'⟩ :=
    exists_asking hsecond
  have ha : a.Occurs askingTwice 2 := by
    rw [Asking.Occurs, hrequest, huser, hroles, hpermissions, habilities]
    rfl
  have hb : b.Occurs askingTwice 3 := by
    rw [Asking.Occurs, hrequest', huser', hroles', hpermissions', habilities']
    rfl
  obtain ⟨row, -, -, hid, hdigested⟩ := ha.exists_row hfresh List.nodup_nil hD
  obtain ⟨row', -, -, hid', hdigested'⟩ := hb.exists_row hfresh List.nodup_nil hD
  simp only [asksFirst, hid, hid', whole?_int, Bool.and_eq_true, beq_iff_eq,
    Option.some.injEq] at hasked hasked'
  obtain ⟨⟨⟨hversion, hmethod⟩, hnumber⟩, hstores⟩ := hasked
  obtain ⟨⟨⟨hversion', hmethod'⟩, hnumber'⟩, hstores'⟩ := hasked'
  have hagrees : a.Agrees b := by
    constructor
    · rw [hversion, hversion']
    · rw [hid, hid', hnumber, hnumber']
    · rw [hrequest, hrequest']
    · rw [hmethod, hmethod']
    · rw [hrequest, hrequest']
    · rw [huser, huser']
    · rw [hstores, hstores']
      exact fun _ => Iff.rfl
    · rw [habilities, habilities']
      exact fun _ => Iff.rfl
    · rw [hroles, hroles']
      exact hswapped
    · rw [hpermissions, hpermissions']
      exact fun _ => Iff.rfl
  have hspace : a.after.cache.space = b.after.cache.space :=
    (ha.after_space hfresh List.nodup_nil hD).trans (hb.after_space hfresh List.nodup_nil hD).symm
  obtain ⟨-, hpairs, hruns⟩ := decisions_told_apart injOn_orderTexts
  have hkey : a.key = b.key :=
    (hpairs _ _ a b row.id row'.id hspace hid hid' (hin _ _ hdigested) (hin _ _ hdigested')).1.mpr
      hagrees
  obtain ⟨-, hverdict⟩ := hruns oneStore askingTwice hfresh List.nodup_nil hin 2 3 a b ha hb hkey
  exact ⟨injOn_orderTexts, a, b, ha, hb, hkey, hagrees, hverdict⟩

end Session
end AccessControl
