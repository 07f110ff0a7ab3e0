import AccessControl.Proofs.Session.Decisions
import Mathlib

/-! # What is decided in a faithful session

In a faithful session the active rules are those of the tables (`answers_rules`), remembered or not.
A verdict on the selected rule is computed from the present permissions or was recorded before, and
what is recorded is read back as it was (`answers_answer`).  So the verdict on a request is the one
without a cache, by permissions that are not old (`gives_authorize`). -/

namespace AccessControl
namespace Session

open Cache Database

variable {D : Topic → String → Prop} {past : Tables → ℤ → Prop} {s s' : Session} {m : View} {n : ℤ}

/-! ### Rules -/

section rules

variable {shared : Bool} {left : ℕ} {service method word : String}

theorem answers_version (h : Coherent shared left s m)
    (hversions : ∀ p, m (Key.version.text s.cache.space) = some p → ∃ n, p = (.int n, none)) :
    ∃ n, Stands s.cache m (Key.version.text s.cache.space) n ∧
      Answers shared left (liftM rulesetVersion : SessionM ℤ) s (.ok n)
        (m.set (Key.version.text s.cache.space) (.int n) none) := by
  obtain ⟨n, hstands, hread⟩ :=
    readCounter_spec h.represents hversions fun n hn => (h.seeds n hn).countable
  have htells := h.tells.set_other (k := .version) rfl (.int n) none
  refine ⟨n, hstands, answers_onCache h ?_ htells⟩
  unfold rulesetVersion
  exact yields_after (outcome_get s.cache) (.refl _) hread

/-- The cached form of the active rules, from the tables. -/
def computeRules (service word : String) : SessionM Value := do
  let rules ← snapshots ((← current).tables.activeRules service word)
  return .list (rules.map Rule.toValue)

/-- The cached form of the active rules under a version, remembered or computed. -/
def rulesUnder (s : Session) (n : ℤ) (service word : String) : SessionM Value :=
  getOrCompute ((Key.rules n (rulesText service word)).text s.cache.space)
    (some s.settings.rulesetTtl.ttlSeconds)
    "ruleset" (computeRules service word)

/-- Rules are restored from what is remembered, or was just computed. -/
theorem answers_findActive {payload : Except Failure Value} {m' : View}
    (hmethod : RuleText.methodOf (.text method) = .ok word)
    (hpayload : Answers shared left (rulesUnder s n (Text.lower (Text.strip service)) word) s
      payload m') :
    Answers shared left (findActive (.text service) (.text method) (.int n)) s (payload >>=
      Tables.readPayload) m' := by
  unfold findActive
  refine answers_lift hmethod ?_
  rw [if_neg (c := (Value.int n).isNull = true) Bool.false_ne_true, pure_bind]
  refine answers_current ?_
  rw [Key.text_rules]
  cases payload with
  | error e => exact answers_bind_error hpayload
  | ok v =>
      refine answers_bind hpayload fun s₁ _ h₁ => ?_
      change Answers shared left _ s₁ (Tables.readPayload v) m'
      unfold Tables.readPayload
      cases v.elements with
      | none => exact answers_outcome h₁ rfl
      | some items =>
          obtain ⟨s₂, hrun, hnoted⟩ := outcome_restoreRules items s₁
          exact answers_noted h₁ hrun hnoted

/-- What is computed of the rules is taken from the tables. -/
theorem answers_computeRules (h : Coherent shared left s m) (service word : String) :
    Answers shared left (computeRules service word) s (s.tables.rulesPayload service word) m := by
  unfold computeRules
  refine answers_current ?_
  obtain ⟨s₁, hrun, hnoted⟩ := outcome_snapshots (s.tables.activeRules service word) s
  unfold Tables.rulesPayload
  cases hrules : (s.tables.activeRules service word).mapM RuleRow.snapshot with
  | error e =>
      rw [hrules] at hrun
      exact answers_bind_error (answers_noted h hrun hnoted)
  | ok rules =>
      rw [hrules] at hrun
      exact answers_bind (answers_noted h hrun hnoted) fun s₂ _ h₂ => answers_pure h₂ _

theorem Kept.answers_computeRules (hkept : Kept s s') (h : Coherent shared left s' m)
    (service word : String) :
    Answers shared left (computeRules service word) s' (s.tables.rulesPayload service word) m := by
  rw [← hkept.tables]
  exact Session.answers_computeRules h service word

/-- What is not remembered of the rules is taken from the tables, and remembered if it is there. -/
theorem answers_rulesUnder (h : Coherent false 0 s m) (service word : String)
    (hnone : m ((Key.rules n (rulesText service word)).text s.cache.space) = none) :
    ∃ m', Answers false 0 (rulesUnder s n service word) s (s.tables.rulesPayload service word) m' ∧
      (m' = m ∨ ∃ v t, s.tables.rulesPayload service word = .ok v ∧
        m' = m.set ((Key.rules n (rulesText service word)).text s.cache.space) v t) := by
  have hcompute : ∀ s', Kept s s' → Coherent false 0 s' m →
      Answers false 0 (computeRules service word) s' (s.tables.rulesPayload service word) m :=
    fun s' hkept h' => hkept.answers_computeRules h' service word
  cases hpayload : s.tables.rulesPayload service word with
  | error e =>
      rw [hpayload] at hcompute
      exact ⟨m, answers_getOrCompute_error h hnone hcompute, .inl rfl⟩
  | ok v =>
      rw [hpayload] at hcompute
      obtain ⟨rules, -, hlist⟩ := bind_eq_ok hpayload
      obtain rfl := Except.ok.inj hlist
      have htells := h.tells.set_other (k := .rules n (rulesText service word)) rfl
      exact ⟨_,
        answers_getOrCompute_miss h hnone (ttlSeconds_pos _) hcompute rfl (storable_memory _)
        rfl (htells _ _),
        .inr ⟨_, _, rfl, rfl⟩⟩

theorem answers_rulesetVersion (h : Faithful D past s m) :
    ∃ n m', Answers false 0 (liftM rulesetVersion : SessionM ℤ) s (.ok n) m' ∧ Decided D past s m' ∧
      m' (Key.version.text s.cache.space) = some (.int n, none) ∧
      ∀ k, m (Key.version.text s.cache.space) = some (.int k, none) → k = n := by
  obtain ⟨n, hstands, hanswer⟩ := answers_version h.coherent h.decided.versions
  refine ⟨n, _, hanswer, h.decided.version (hstands.imp_right And.left), View.set_same ..,
    fun k hk => ?_⟩
  rcases hstands with hn | ⟨hnone, -⟩
  · simpa [hk] using hn
  · rw [hnone] at hk
    cases hk

/-- Under the present version, the active rules are those of the tables, remembered or not. -/
theorem answers_rules (h : Faithful D past s m) (hD : Digests D)
    (hn : m (Key.version.text s.cache.space) = some (.int n, none)) (service : Value)
    (method : String)
    (hknown : ∀ t word, service = .text t → RuleText.methodOf (.text method) = .ok word →
      D .rules (rulesText (Text.lower (Text.strip t)) word)) :
    ∃ m', Answers false 0 (findActive service (.text method) (.int n)) s
      (rulesOf s.tables service method) m' ∧
      Decided D past s m' ∧ m' (Key.version.text s.cache.space) = some (.int n, none) := by
  unfold rulesOf
  cases service with
  | text service =>
      cases hmethod : RuleText.methodOf (.text method) with
      | error e => exact ⟨m, answers_lift_error h.coherent hmethod, h.decided, hn⟩
      | ok word =>
          have htext := hknown service word rfl hmethod
          set name := Text.lower (Text.strip service)
          cases hp : m ((Key.rules n (rulesText name word)).text s.cache.space) with
          | some p =>
              obtain ⟨v, t⟩ := p
              obtain ⟨k, hk, -, htrue⟩ := h.decided.rules n _ _ htext hp
              obtain rfl : n = k := by simpa [hn] using hk
              have hpayload := htrue rfl name word rfl
              obtain ⟨rules, -, hlist⟩ := bind_eq_ok hpayload
              obtain rfl : Value.list (rules.map Rule.toValue) = v := Except.ok.inj hlist
              refine ⟨m, ?_, h.decided, hn⟩
              change Answers false 0 _ s (s.tables.rulesPayload name word >>= Tables.readPayload) m
              rw [hpayload]
              exact answers_findActive hmethod (answers_getOrCompute_hit h.coherent hp rfl)
          | none =>
              obtain ⟨m', hpayload, hm'⟩ := answers_rulesUnder h.coherent name word hp
              refine ⟨m', answers_findActive hmethod hpayload, ?_⟩
              rcases hm' with rfl | ⟨v, t, hv, rfl⟩
              · exact ⟨h.decided, hn⟩
              · refine ⟨h.decided.setRules hD hn htext hv t, ?_⟩
                rwa [set_known hD (k := .rules n (rulesText name word)) htext m v t (l := .version)
                  trivial,
                  if_neg (by simp)]
  | _ => exact ⟨m, answers_outcome h.coherent rfl, h.decided, hn⟩

end rules

/-! ### Questions -/

/-- What an authorization asks for: the verdict of a rule, under a version of the
rule set, for stores. -/
structure Asked where
  version : ℤ
  method : String
  rule : Rule
  stores : List ℤ

/-- The key under which the verdict is remembered. -/
def Asked.key (q : Asked) (space : String) (request : Request) (caller : Caller) : String :=
  decisionKey space (.int q.version)
    (.of q.rule.id (Text.lower request.service.display) q.method request.target
    caller.userId q.stores caller.abilities caller.roles caller.permissions)

/-- The way of an authorization to what it asks for, or to a verdict for which no rule is asked. -/
def question (request : Request) (caller : Caller) : SessionM (Verdict ⊕ Asked) := do
  let settings := (← current).settings
  let method ← request.lookupMethod
  if settings.superRoles.any caller.roles.contains then return .inl (bareVerdict true .superRole)
  else
    let version ← (rulesetVersion : CacheM ℤ)
    let rules ← findActive request.service (.text method) (.int version)
    reportUnreadable (Rule.unreadable rules request.path request.routeName)
    match ← Rule.select rules request.path request.routeName with
    | none => return .inl (bareVerdict settings.allowIfNoRule .noRule)
    | some rule =>
      let stores ← (Policy.storeIdsFor rule (some request.context)).mapError (Failure.numeral "")
      return .inr ⟨version, method, rule, stores⟩

/-- The verdict that is asked for: for a user, the remembered one. -/
def answer (cached : Bool) (request : Request) (caller : Caller) (q : Asked) :
    SessionM Verdict := do
  if caller.userId.isNull then evaluate cached q.rule caller (q.stores.map .int)
  else
    let s ← current
    let payload ← getOrCompute (q.key s.cache.space request caller)
        (some s.settings.decisionTtl.ttlSeconds) "decision" (do
      return (← evaluate cached q.rule caller (q.stores.map .int)).toValue)
    let verdict ← Verdict.read payload
    return verdict

/-- The verdict after a question, which is noted. -/
def conclude (cached : Bool) (request : Request) (caller : Caller) : Verdict ⊕ Asked →
    SessionM Verdict
  | .inl v => noteDecision request caller v
  | .inr q => do
    let v ← answer cached request caller q
    noteDecision request caller v

theorem decide_eq (cached : Bool) (request : Request) (method : String) (caller : Caller) (n : ℤ)
    (rule : Rule) :
    decide cached request method caller n rule = (do
      let stores ← (Policy.storeIdsFor rule (some request.context)).mapError (Failure.numeral "")
      answer cached request caller ⟨n, method, rule, stores⟩) := rfl

/-- An authorization is a question and what is made of it. -/
theorem authorize_eq (cached : Bool) (request : Request) (caller : Caller) :
    authorize cached request caller = question request caller >>=
      conclude cached request caller := by
  unfold authorize question
  simp only [decide_eq, bind_assoc]
  congr 1
  funext s
  congr 1
  funext method
  split
  · rfl
  · simp only [bind_assoc]
    congr 1
    funext n
    congr 1
    funext rules
    congr 1
    funext _
    congr 1
    funext found
    cases found with
    | none => rfl
    | some rule =>
        simp only [bind_assoc, pure_bind]
        rfl

/-! ### Decisions -/

theorem pairwise_storeIdsFor {rule : Rule} {context : Stores.Context} {stores : List ℤ}
    (h : Policy.storeIdsFor rule (some context) = .ok stores) : stores.Pairwise (· < ·) := by
  unfold Policy.storeIdsFor at h
  dsimp only at h
  split at h
  · unfold Stores.storeIds at h
    cases hids : Stores.idsIn context rule.sources Stores.Bucket.all with
    | error e =>
        rw [hids] at h
        cases h
    | ok ids =>
        rw [hids] at h
        obtain rfl : ascendingInts ids = stores := Except.ok.inj h
        exact pairwise_ascending ids
  · obtain rfl := Except.ok.inj h
    exact .nil

section decisions

variable {request request' : Request} {method method' : String} {caller caller' : Caller}
  {rule rule' : Rule}
  {row row' : RuleRow} {stores stores' : List ℤ} {user user' : ℤ}

/-- What is digested of a decision determines the number of the rule, the stores, and the
caller up to names as sets. -/
theorem decisionText_inj (hrule : row.restored = .ok rule) (hrule' : row'.restored = .ok rule')
    (huser : caller.userId = .int user) (huser' : caller'.userId = .int user')
    (hstores : stores.Pairwise (· < ·)) (hstores' : stores'.Pairwise (· < ·))
    (h : decisionText request method caller rule stores = decisionText request' method' caller'
      rule' stores') :
    row.id = row'.id ∧ stores = stores' ∧ Policy.Alike caller caller' := by
  unfold decisionText at h
  rw [(restored_spec hrule).1, (restored_spec hrule').1, huser, huser'] at h
  have halike := Facts.alike_of_text
    (f := ⟨row.id, _, method, request.target, user, stores, caller.abilities, caller.roles,
      caller.permissions⟩)
    (g := ⟨row'.id, _, method', request'.target, user', stores', caller'.abilities, caller'.roles,
      caller'.permissions⟩) h
  refine ⟨halike.rule, List.Pairwise.eq_of_mem_iff hstores hstores' halike.stores, ?_⟩
  obtain rfl : user = user' := halike.user
  exact ⟨huser.trans huser'.symm, halike.roles, halike.permissions, halike.abilities⟩

theorem Recorded.verdict_eq {text : String} {p : Value × Option ℤ} (h : Recorded past s text p)
    (hkeyed : Table.rules.Keyed s.tables.rules) (hrow : row ∈ s.tables.rules)
    (hrule : row.restored = .ok rule) (huser : caller.userId = .int user)
    (hstores : stores.Pairwise (· < ·))
    (htext : text = decisionText request method caller rule stores) :
    Policy.evaluate (h.tables.source s.settings.hierarchyMaxDepth) s.settings.wildcardAbility rule
      caller
      (stores.map .int) = .ok h.verdict := by
  obtain ⟨hid, hsame, halike⟩ :=
    decisionText_inj h.hrule hrule h.huser huser h.hstores hstores (h.htext.symm.trans htext)
  have hrows : h.row = row := hkeyed.eq_of_id h.hrow hrow hid
  have hrules : h.rule = rule := Except.ok.inj (h.hrule.symm.trans (hrows ▸ hrule))
  have hverdict := h.hverdict
  rwa [hrules, hsame, Policy.evaluate_congr halike] at hverdict

theorem read_verdict {t : Tables} {depth : ℤ} {wildcard : String} {v : Verdict}
    (hrule : row.restored = .ok rule) (huser : caller.userId = .int user)
    (hstores : stores.Pairwise (· < ·))
    (h : Policy.evaluate (t.source depth) wildcard rule caller (stores.map .int) = .ok v) :
    Verdict.read v.toValue = .ok v := by
  have hnodup : stores.Nodup := hstores.imp fun hlt => ne_of_lt hlt
  refine Verdict.read_toValue
    (Policy.evaluate_regular hnodup (by rw [huser]; rfl) ⟨_, (restored_spec hrule).2⟩ ?_ h)
  intro n names hnames
  rw [huser, source_inStore] at hnames
  split at hnames
  · next hfits => exact short_of_fits hfits.2
  · cases hnames

/-- A verdict or a failure is the one over the tables of a moment that is not longer ago
than decisions are kept. -/
def Supported (past : Tables → ℤ → Prop) (s : Session) (verdictOf : Tables → Except Failure Verdict)
    (r : Except Failure Verdict) : Prop :=
  ∃ t moment, past t moment ∧ moment ≤ s.cache.clock ∧
    s.cache.clock < moment + s.settings.decisionTtl.ttlSeconds ∧
    verdictOf t = r

theorem supported_present (hpresent : past s.tables s.cache.clock)
    {verdictOf : Tables → Except Failure Verdict} {r : Except Failure Verdict}
    (h : verdictOf s.tables = r) : Supported past s verdictOf r := by
  have httl := ttlSeconds_pos s.settings.decisionTtl
  exact ⟨s.tables, s.cache.clock, hpresent, le_rfl, by omega, h⟩

theorem Supported.kept {s₁ : Session} {verdictOf : Tables → Except Failure Verdict}
    {r : Except Failure Verdict} (h : Supported past s₁ verdictOf r) (hkept : Kept s s₁) :
    Supported past s verdictOf r := by
  unfold Supported at h ⊢
  rwa [hkept.cache.clock, hkept.settings] at h

/-- The verdict of a rule for a caller and stores, by the permissions that tables give. -/
def verdictBy (s : Session) (rule : Rule) (caller : Caller) (stores : List ℤ) (t : Tables) :
    Except Failure Verdict :=
  Policy.evaluate (t.source s.settings.hierarchyMaxDepth) s.settings.wildcardAbility rule caller
    (stores.map .int)

/-- The cached form of a verdict is that of the verdict by the present permissions. -/
theorem answers_cachedForm {left : ℕ} (h : Coherent false left s m) (rule : Rule)
    (hcaller : Numbered caller) (stores : List ℤ) : ∃ m', Unmoved s.cache.space m m' ∧
      Answers false left (do return (← evaluate true rule caller (stores.map .int)).toValue) s
        ((verdictBy s rule caller stores s.tables).map Verdict.toValue) m' := by
  obtain ⟨m', hm, hanswer⟩ := answers_evaluate h true rule hcaller stores
  refine ⟨m', hm, ?_⟩
  unfold verdictBy
  revert hanswer
  generalize Policy.evaluate (s.tables.source s.settings.hierarchyMaxDepth)
    s.settings.wildcardAbility rule caller
    (stores.map .int) = result
  intro hanswer
  cases result with
  | error e => exact answers_bind_error hanswer
  | ok v => exact answers_bind hanswer fun s₁ _ h₁ => answers_pure h₁ _

theorem Decided.unmoved (h : Decided D past s m) {m' : View} (hm : Unmoved s.cache.space m m') :
    Decided D past s m' :=
  h.later ⟨rfl, rfl, rfl, le_rfl, hm.fades⟩ fun _ _ hpast => hpast

/-- What is remembered of a verdict, or computed and then remembered, is one by
permissions that are not old. -/
theorem answers_rememberedVerdict (h : Faithful D past s m) (hD : Digests D)
    (hpresent : past s.tables s.cache.clock)
    (hn : m (Key.version.text s.cache.space) = some (.int n, none)) (hrow : row ∈ s.tables.rules)
    (hrule : row.restored = .ok rule) (huser : caller.userId = .int user)
    (hstores : stores.Pairwise (· < ·)) {text : String}
    (htext : text = decisionText request method caller rule stores) (hknown : D .decision text) :
    ∃ r m', Answers false 0 (getOrCompute ((Key.decision n text).text s.cache.space)
        (some s.settings.decisionTtl.ttlSeconds) "decision"
        (do return (← evaluate true rule caller (stores.map .int)).toValue)) s
          (r.map Verdict.toValue) m' ∧
      Decided D past s m' ∧ m' (Key.version.text s.cache.space) = some (.int n, none) ∧
      Supported past s (verdictBy s rule caller stores) r := by
  cases hp : m ((Key.decision n text).text s.cache.space) with
  | some p =>
      obtain ⟨k, hk, -, hrecorded⟩ := h.decided.decisions n _ _ hknown hp
      obtain rfl : n = k := by simpa [hn] using hk
      obtain ⟨record⟩ := hrecorded rfl
      have hverdict := record.verdict_eq h.keyed hrow hrule huser hstores htext
      rw [record.hentry] at hp
      have hlive := h.coherent.represents.lt_expiry hp
      exact ⟨.ok record.verdict, m, answers_getOrCompute_hit h.coherent hp rfl, h.decided, hn,
        record.tables, record.moment, record.hpast, record.hle, hlive, hverdict⟩
  | none =>
      have hcompute : ∀ s', Kept s s' → Coherent false 0 s' m → ∃ m', Unmoved s.cache.space m m' ∧
          Answers false 0 (do return (← evaluate true rule caller (stores.map .int)).toValue) s'
            ((verdictBy s rule caller stores s.tables).map Verdict.toValue) m' := by
        intro s' hkept h'
        have hform := answers_cachedForm h' rule (.inr ⟨user, huser⟩) stores
        unfold verdictBy at hform ⊢
        rwa [hkept.cache.space, hkept.tables, hkept.settings] at hform
      cases hverdict : verdictBy s rule caller stores s.tables with
      | error e =>
          rw [hverdict] at hcompute
          obtain ⟨m', hm, hanswer⟩ := answers_getOrCompute_failed h.coherent hp hcompute
          exact ⟨.error e, m', hanswer, h.decided.unmoved hm, (hm .version rfl).trans hn,
            supported_present hpresent hverdict⟩
      | ok v =>
          rw [hverdict] at hcompute
          have httl := ttlSeconds_pos s.settings.decisionTtl
          obtain ⟨m', hm, hanswer⟩ := answers_getOrCompute_computed h.coherent hp httl hcompute rfl
            (storable_memory _) rfl
            fun m' _ htells => htells.set_other (k := .decision n text) rfl _ _
          have hversion : m' (Key.version.text s.cache.space) = some (.int n, none) :=
            (hm .version rfl).trans hn
          refine ⟨.ok v, _, hanswer, (h.decided.unmoved hm).setDecision hD hversion hknown ?_, ?_,
            supported_present hpresent hverdict⟩
          · exact ⟨request, method, caller, user, row, rule, stores, s.tables, s.cache.clock, v,
              huser, hrow, hrule, hstores, htext, hpresent, le_rfl, hverdict, rfl⟩
          · rwa [set_known hD (k := .decision n text) hknown m' _ _ (l := .version) trivial,
              if_neg (by simp)]

/-- The verdict that is asked for is one by permissions that are not old. -/
theorem answers_answer (h : Faithful D past s m) (hD : Digests D)
    (hpresent : past s.tables s.cache.clock)
    (hn : m (Key.version.text s.cache.space) = some (.int n, none)) (hrow : row ∈ s.tables.rules)
    (hrule : row.restored = .ok rule) (hcaller : Numbered caller)
    (hstores : stores.Pairwise (· < ·))
    (hknown : caller.userId ≠ .null →
      D .decision (decisionText request method caller rule stores)) :
    ∃ r m', Answers false 0 (answer true request caller ⟨n, method, rule, stores⟩) s r m' ∧
      Decided D past s m' ∧ m' (Key.version.text s.cache.space) = some (.int n, none) ∧
      Supported past s (verdictBy s rule caller stores) r := by
  unfold answer
  rcases hcaller with hnull | ⟨user, huser⟩
  · -- Nothing is remembered for nobody in particular.
    obtain ⟨m', hm, hanswer⟩ := answers_evaluate h.coherent true rule (.inl hnull) stores
    refine ⟨_, m', ?_, h.decided.unmoved hm, (hm .version rfl).trans hn,
      supported_present hpresent rfl⟩
    rw [if_pos (by rw [hnull]; rfl)]
    exact hanswer
  · have hsome : ¬ caller.userId.isNull = true := by
      rw [huser]
      exact Bool.false_ne_true
    obtain ⟨r, m', hanswer, hdecided, hn', hsupported⟩ :=
      answers_rememberedVerdict h hD hpresent hn hrow hrule huser
      hstores rfl (hknown (by rw [huser]; simp))
    refine ⟨r, m', ?_, hdecided, hn', hsupported⟩
    rw [if_neg hsome]
    refine answers_current ?_
    dsimp only [Asked.key]
    rw [Key.text_decision]
    cases r with
    | error e => exact answers_bind_error hanswer
    | ok v =>
        obtain ⟨t, moment, -, -, -, hverdict⟩ := hsupported
        refine answers_bind hanswer fun s₁ _ h₁ => answers_outcome h₁ ?_
        rw [outcome_lift, read_verdict hrule huser hstores hverdict]

end decisions

/-! ### Sequences -/

variable {s₁ : Session} {m₁ : View} {α β : Type} {P : Except Failure α → View → Prop}
  {Q : Except Failure β → View → Prop}

/-- An operation leads to a faithful session over the same tables, and its result or
failure meets a condition. -/
def Gives (D : Topic → String → Prop) (past : Tables → ℤ → Prop) (operation : SessionM α)
    (s : Session) (P : Except Failure α → View → Prop) : Prop :=
  ∃ r s' m', outcome operation s = (r, s') ∧ Kept s s' ∧ Faithful D past s' m' ∧ P r m'

theorem gives_answers (h : Faithful D past s m) {operation : SessionM α} {r : Except Failure α}
    {m' : View} (hanswer : Answers false 0 operation s r m') (hdecided : Decided D past s m')
    (hP : P r m') :
    Gives D past operation s P := by
  obtain ⟨s', hrun, hkept, h'⟩ := hanswer
  have hlater := hdecided.later (hkept.passes m') fun _ _ hpast => hpast
  exact ⟨r, s', m', hrun, hkept, ⟨h', hlater, hkept.tables ▸ h.keyed⟩, hP⟩

theorem gives_noted (h : Faithful D past s m) {operation : SessionM α} {r : Except Failure α}
    {s' : Session} (hrun : outcome operation s = (r, s')) (hnoted : Noted s s') (hP : P r m) :
    Gives D past operation s P :=
  gives_answers h (answers_noted h.coherent hrun hnoted) h.decided hP

theorem gives_bind {x : SessionM α} {f : α → SessionM β} (hx : Gives D past x s P)
    (hf : ∀ a s₁ m₁, Kept s s₁ → Faithful D past s₁ m₁ → P (.ok a) m₁ → Gives D past (f a) s₁ Q)
    (herror : ∀ e m₁, P (.error e) m₁ → Q (.error e) m₁) : Gives D past (x >>= f) s Q := by
  obtain ⟨r, s₁, m₁, hrun, hkept, h₁, hP⟩ := hx
  cases r with
  | error e =>
      exact ⟨.error e, s₁, m₁, by rw [outcome_bind, hrun, andThen_error], hkept, h₁, herror e m₁ hP⟩
  | ok a =>
      obtain ⟨r, s₂, m₂, hrun', hkept', h₂, hQ⟩ := hf a s₁ m₁ hkept h₁ hP
      exact ⟨r, s₂, m₂, by rw [outcome_bind, hrun, andThen_ok, hrun'], hkept.trans hkept', h₂, hQ⟩

theorem gives_current {f : Session → SessionM β} (hf : Gives D past (f s) s Q) :
    Gives D past (current >>= f) s Q := by
  obtain ⟨r, s', m', hrun, hrest⟩ := hf
  exact ⟨r, s', m', by rw [outcome_bind, outcome_current, andThen_ok, hrun], hrest⟩

theorem gives_lift (h : Faithful D past s m) {x : Except Failure α} {f : α → SessionM β}
    (hf : ∀ a, x = .ok a → Gives D past (f a) s Q) (herror : ∀ e, x = .error e → Q (.error e) m) :
    Gives D past (liftM x >>= f) s Q := by
  cases x with
  | error e => exact gives_noted h rfl (.refl s) (herror e rfl)
  | ok a => exact hf a rfl

/-! ### Requests -/

/-- The texts that are digested for the verdict on a request of a caller. -/
inductive Digested (t : Tables) (request : Request) (caller : Caller) : Topic → String → Prop
  | rules (service method word : String) (hservice : request.service = .text service)
      (hmethod : request.lookupMethod = .ok method)
        (hword : RuleText.methodOf (.text method) = .ok word) :
      Digested t request caller .rules (rulesText (Text.lower (Text.strip service)) word)
  | decision (method : String) (rule : Rule) (stores : List ℤ)
      (hmethod : request.lookupMethod = .ok method)
      (hrule : ruleOf t request method = .ok (some (rule, stores)))
        (huser : caller.userId ≠ .null) :
      Digested t request caller .decision (decisionText request method caller rule stores)

theorem mem_rulesOf {t : Tables} {service : Value} {method : String} {rules : List Rule}
    (h : rulesOf t service method = .ok rules) {rule : Rule} (hrule : rule ∈ rules) :
    ∃ row ∈ t.rules, row.restored = .ok rule := by
  unfold rulesOf at h
  split at h
  · obtain ⟨word, -, h⟩ := bind_eq_ok h
    exact mem_rulesFor h hrule
  · cases h

variable {request : Request} {caller : Caller}

theorem gives_noteDecision (h : Faithful D past s m) {v : Verdict}
    {P : Except Failure Verdict → View → Prop} (hP : P (.ok v) m) :
    Gives D past (noteDecision request caller v) s P :=
  gives_noted h rfl (noted_records s _) hP

/-- What a question comes to over tables: a verdict or a failure as there is without a cache, or the
rule and the stores that decide. -/
def Finds (settings : Settings) (t : Tables) (request : Request) (caller : Caller)
    (space : String) :
    Except Failure (Verdict ⊕ Asked) → View → Prop
  | .ok (.inr q), m => m (Key.version.text space) = some (.int q.version, none) ∧
      request.lookupMethod = .ok q.method ∧ ¬settings.superRoles.any caller.roles.contains = true ∧
      ruleOf t request q.method = .ok (some (q.rule, q.stores))
  | .ok (.inl v), _ => ∀ past, plainVerdict settings t past request caller = .ok v
  | .error e, _ => ∀ past, plainVerdict settings t past request caller = .error e

/-- The version that is there stays there. -/
def KeepsVersion (space : String) (m m' : View) : Prop :=
  ∀ n, m (Key.version.text space) = some (.int n, none) →
    m' (Key.version.text space) = some (.int n, none)

/-- A faithful session comes to the question that the rules of its tables lead to, under the
version that is there. -/
theorem gives_question (h : Faithful D past s m) (hD : Digests D)
    (hknown : ∀ topic text, Digested s.tables request caller topic text → D topic text) :
    Gives D past (question request caller) s fun r m' =>
      Finds s.settings s.tables request caller s.cache.space r m' ∧
        KeepsVersion s.cache.space m m' := by
  unfold question
  refine gives_current (gives_lift h (fun method hmethod => ?_) fun e hmethod => ?_)
  · split
    · next hsuper =>
        exact gives_noted h rfl (.refl s) ⟨fun past => plainVerdict_super hmethod hsuper,
          fun n hn => hn⟩
    · next hsuper =>
        obtain ⟨n, m₁, hanswer, hdecided, hn, hsame⟩ := answers_rulesetVersion h
        -- From here on the version stands, so that it is the one before if there was one.
        have hkeeps : ∀ m' : View, m' (Key.version.text s.cache.space) = some (.int n, none) →
            KeepsVersion s.cache.space m m' := fun m' hn' k hk => hsame k hk ▸ hn'
        have hversion : Gives D past (liftM rulesetVersion) s fun r m' =>
            r = .ok n ∧ m' (Key.version.text s.cache.space) = some (.int n, none) :=
          gives_answers h hanswer hdecided ⟨rfl, hn⟩
        refine gives_bind hversion (fun k s₁ m₁ hk₁ h₁ hk => ?_) fun e _ he => by cases he.1
        obtain ⟨heq, hn₁⟩ := hk
        obtain rfl : k = n := Except.ok.inj heq
        have hactive :
            Gives D past (findActive request.service (.text method) (.int k)) s₁ fun r m' =>
            rulesOf s.tables request.service method = r ∧
              m' (Key.version.text s.cache.space) = some (.int k, none) := by
          rw [← hk₁.cache.space] at hn₁ ⊢
          rw [← hk₁.tables]
          obtain ⟨m', hanswer, hdecided, hn'⟩ := answers_rules h₁ hD hn₁ request.service method
            fun t word hservice hword => hknown _ _ (.rules t method word hservice hmethod hword)
          exact gives_answers h₁ hanswer hdecided ⟨rfl, hn'⟩
        refine gives_bind hactive (fun rules s₂ m₂ hk₂ h₂ hrules => ?_) fun e m' he =>
          ⟨fun past => plainVerdict_error hmethod hsuper (ruleOf_error he.1), hkeeps m' he.2⟩
        obtain ⟨hrules, hn₂⟩ := hrules
        have hreport :
            Gives D past (reportUnreadable (Rule.unreadable rules request.path request.routeName))
            s₂
            fun r m' => r = .ok () ∧ m' (Key.version.text s.cache.space) = some (.int k, none) :=
          gives_noted h₂ rfl ⟨rfl, rfl, rfl, rfl, rfl⟩ ⟨rfl, hn₂⟩
        refine gives_bind hreport (fun _ s₃ m₃ hk₃ h₃ hn₃ => ?_) fun e _ he => by cases he.1
        have hkept := hkeeps m₃ hn₃.2
        refine gives_lift h₃ (fun found hfound => ?_) fun e hfound =>
          ⟨fun past => plainVerdict_error hmethod hsuper (ruleOf_unselected hrules hfound), hkept⟩
        cases found with
        | none =>
            have hnone : ∀ past, plainVerdict s.settings s.tables past request caller =
                .ok (bareVerdict s.settings.allowIfNoRule .noRule) :=
              fun past => plainVerdict_none hmethod hsuper (ruleOf_none hrules hfound)
            exact gives_noted h₃ rfl (.refl s₃) ⟨hnone, hkept⟩
        | some rule =>
            have hruleOf := ruleOf_some hrules hfound
            refine gives_lift h₃ (fun stores hstores => ?_) fun e hstores => ⟨fun past => ?_, hkept⟩
            · rw [hstores] at hruleOf
              exact gives_noted h₃ rfl (.refl s₃) ⟨⟨hn₃.2, hmethod, hsuper, hruleOf⟩, hkept⟩
            · rw [hstores] at hruleOf
              exact plainVerdict_error hmethod hsuper hruleOf
  · exact ⟨fun past => plainVerdict_unmethodical hmethod, fun n hn => hn⟩

/-- The answer to a question that the rules of the tables lead to is a verdict by
permissions that are not old. -/
theorem gives_answer (h : Faithful D past s m) (hD : Digests D)
    (hpresent : past s.tables s.cache.clock) (hcaller : Numbered caller)
    (hknown : ∀ topic text, Digested s.tables request caller topic text → D topic text) {q : Asked}
    (hn : m (Key.version.text s.cache.space) = some (.int q.version, none))
    (hmethod : request.lookupMethod = .ok q.method)
    (hsuper : ¬ s.settings.superRoles.any caller.roles.contains = true)
    (hruleOf : ruleOf s.tables request q.method = .ok (some (q.rule, q.stores))) :
    Gives D past (answer true request caller q) s fun r m' =>
      m' (Key.version.text s.cache.space) = some (.int q.version, none) ∧
        Supported past s (fun t => plainVerdict s.settings s.tables t request caller) r := by
  obtain ⟨rules, hrules, hselect, hstores⟩ := ruleOf_eq_some hruleOf
  obtain ⟨row, hrow, hrestored⟩ := mem_rulesOf hrules (Rule.mem_of_select hselect)
  obtain ⟨r, m', hanswer, hdecided, hn', hsupported⟩ :=
    answers_answer h hD hpresent hn hrow hrestored hcaller
    (pairwise_storeIdsFor hstores) fun huser =>
      hknown _ _ (.decision q.method q.rule q.stores hmethod hruleOf huser)
  have hplain : verdictBy s q.rule caller q.stores = fun t =>
      plainVerdict s.settings s.tables t request caller :=
    funext fun t => (plainVerdict_some hmethod hsuper hruleOf).symm
  exact gives_answers h hanswer hdecided ⟨hn', hplain ▸ hsupported⟩

/-- The verdict that is found, or the answer to the question, is one by permissions that are not
old. -/
theorem gives_conclude (h : Faithful D past s m) (hD : Digests D)
    (hpresent : past s.tables s.cache.clock) (hcaller : Numbered caller)
    (hknown : ∀ topic text, Digested s.tables request caller topic text → D topic text)
    {found : Verdict ⊕ Asked}
    (hfound : Finds s.settings s.tables request caller s.cache.space (.ok found) m) :
    Gives D past (conclude true request caller found) s fun r m' =>
      Supported past s (fun t => plainVerdict s.settings s.tables t request caller) r ∧
        KeepsVersion s.cache.space m m' := by
  unfold conclude
  cases found with
  | inl v => exact gives_noteDecision h ⟨supported_present hpresent (hfound _), fun n hn => hn⟩
  | inr q =>
      obtain ⟨hn, hmethod, hsuper, hruleOf⟩ := hfound
      have hanswer := gives_answer h hD hpresent hcaller hknown hn hmethod hsuper hruleOf
      have hkeeps : ∀ m' : View, m' (Key.version.text s.cache.space) = some (.int q.version, none) →
          KeepsVersion s.cache.space m m' := fun m' hn' k hk => hn'.trans (hn.symm.trans hk)
      refine gives_bind hanswer (fun v s₁ m₁ hk₁ h₁ hv => ?_) fun e m' he => ⟨he.2, hkeeps m' he.1⟩
      exact gives_noteDecision h₁ ⟨hv.2, hkeeps m₁ hv.1⟩

/-- What becomes of a request of a caller is what becomes of it without a cache, for the rules of
the moment and for permissions that are not old. -/
theorem gives_authorize (h : Faithful D past s m) (hD : Digests D)
    (hpresent : past s.tables s.cache.clock) (hcaller : Numbered caller)
    (hknown : ∀ topic text, Digested s.tables request caller topic text → D topic text) :
    Gives D past (authorize true request caller) s fun r m' =>
      Supported past s (fun t => plainVerdict s.settings s.tables t request caller) r ∧
        KeepsVersion s.cache.space m m' := by
  rw [authorize_eq]
  refine gives_bind (gives_question h hD hknown) (fun found s₁ m₁ hk₁ h₁ hfound => ?_)
    fun e m' hfailed =>
    ⟨supported_present hpresent (hfailed.1 _), hfailed.2⟩
  obtain ⟨hfound, hkept⟩ := hfound
  rw [← hk₁.settings, ← hk₁.tables, ← hk₁.cache.space] at hfound
  rw [← hk₁.tables] at hknown
  rw [← hk₁.tables, ← hk₁.cache.clock] at hpresent
  obtain ⟨r, s₂, m₂, hrun, hk₂, h₂, hsupported, hkept'⟩ :=
    gives_conclude h₁ hD hpresent hcaller hknown hfound
  rw [hk₁.settings, hk₁.tables] at hsupported
  rw [hk₁.cache.space] at hkept'
  exact ⟨r, s₂, m₂, hrun, hk₂, h₂, hsupported.kept hk₁, fun n hn => hkept' n (hkept n hn)⟩

end Session
end AccessControl
