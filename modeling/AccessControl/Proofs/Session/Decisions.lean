import AccessControl.Proofs.Cache.Facts
import AccessControl.Proofs.Session.RuleSteps
import AccessControl.Proofs.Session.Verdicts
import Mathlib

/-! # Remembered decisions are not old

Under the present version of the rule set, the cache of a `Faithful` session shows the rules of the
tables, and verdicts over the tables of some moment that is not longer ago than decisions are kept.
Entries under older versions may say anything, since nobody asks for them.  Changes of the rules
raise the version, and nothing else that happens touches what is decided. -/

namespace AccessControl
namespace Session

open Cache Database

/-! ### Known keys -/

/-- What a digested text is about. -/
inductive Topic where
  | rules
  | decision

/-- What the key digests is one of some texts. -/
def Known (D : Topic → String → Prop) : Key → Prop
  | .rules _ text => D .rules text
  | .decision _ text => D .decision text
  | _ => True

/-- Some texts are told apart by their digests, if they are about the same. -/
def Digests (D : Topic → String → Prop) : Prop :=
  ∀ topic a b, D topic a → D topic b → Digest.sha256Hex a = Digest.sha256Hex b → a = b

variable {D : Topic → String → Prop} {space : String}

theorem known_text_inj (hD : Digests D) {k l : Key} (hk : Known D k) (hl : Known D l)
    (h : k.text space = l.text space) : k = l := by
  refine Key.text_inj ?_ h
  cases k <;> cases l <;> first | exact hD _ _ _ hk hl | trivial

theorem set_known (hD : Digests D) {k : Key} (hk : Known D k) (m : View) (v : Value) (t : Option ℤ)
    {l : Key} (hl : Known D l) :
    m.set (k.text space) v t (l.text space) = if l = k then some (v, t) else m (l.text space) := by
  split
  · next h => rw [h, View.set_same]
  · next h => exact View.set_of_ne m (fun heq => h (known_text_inj hD hl hk heq)) v t

/-! ### Entries under versions -/

/-- The key of what is about something, under a version. -/
def Topic.key : Topic → ℤ → String → Key
  | rules => .rules
  | decision => .decision

section Versioned

variable {topic : Topic} {good good' : String → Value × Option ℤ → Prop} {m m' : View} {n : ℤ}

theorem Topic.isDerived_key (topic : Topic) (v : ℤ) (text : String) :
    (topic.key v text).isDerived = false := by
  cases topic <;> rfl

theorem Topic.known_key {v : ℤ} {text : String} (h : D topic text) :
    Known D (topic.key v text) := by
  cases topic <;> exact h

theorem Topic.key_ne_version (topic : Topic) (v : ℤ) (text : String) :
    topic.key v text ≠ .version := by
  cases topic <;> simp [Topic.key]

theorem Topic.key_inj {v w : ℤ} {text text' : String} (h : topic.key v text = topic.key w text') :
    v = w ∧ text = text' := by
  cases topic <;> simpa [Topic.key] using h

theorem Topic.text_ne_version (topic : Topic) (v : ℤ) (text : String) :
    (topic.key v text).text space ≠ Key.version.text space := by
  intro h
  exact topic.key_ne_version v text (Key.text_inj (by cases topic <;> trivial) h)

/-- What is shown about something is good under the present version, and there is
nothing under later ones. -/
def Versioned (D : Topic → String → Prop) (topic : Topic) (good : String → Value × Option ℤ → Prop)
    (space : String) (m : View) : Prop :=
  ∀ v text p, D topic text → m ((topic.key v text).text space) = some p →
    ∃ n, m (Key.version.text space) = some (.int n, none) ∧ v ≤ n ∧ (v = n → good text p)

theorem Versioned.later (h : Versioned D topic good space m) (hfades : Fades space m m')
    (hgood : ∀ text p, good text p → good' text p) : Versioned D topic good' space m' := by
  intro v text p hD hp
  obtain ⟨n, hn, hle, htrue⟩ :=
    h v text p hD (hfades.less (topic.key v text) p (topic.isDerived_key v text) hp)
  exact ⟨n, hfades.kept .version _ rfl hn, hle, fun heq => hgood text p (htrue heq)⟩

theorem Versioned.version (h : Versioned D topic good space m)
    (hstands : m (Key.version.text space) = some (.int n, none) ∨
      m (Key.version.text space) = none) :
    Versioned D topic good space (m.set (Key.version.text space) (.int n) none) := by
  rcases hstands with hn | hnone
  · rwa [View.set_eq_self hn]
  · intro v text p hD hp
    rw [View.set_of_ne m (topic.text_ne_version v text)] at hp
    obtain ⟨k, hk, -⟩ := h v text p hD hp
    rw [hnone] at hk
    cases hk

theorem Versioned.renewed (h : Versioned D topic good space m)
    (hstands : m (Key.version.text space) = some (.int n, none) ∨
      m (Key.version.text space) = none) :
    Versioned D topic good' space (m.set (Key.version.text space) (.int (n + 1)) none) := by
  intro v text p hD hp
  rw [View.set_of_ne m (topic.text_ne_version v text)] at hp
  obtain ⟨k, hk, hle, -⟩ := h v text p hD hp
  obtain rfl : k = n := by
    rcases hstands with hn | hnone
    · simpa [hk] using hn
    · rw [hnone] at hk
      cases hk
  exact ⟨k + 1, View.set_same .., by omega, fun heq => by omega⟩

/-- Something good may be shown under the present version. -/
theorem Versioned.set (h : Versioned D topic good space m) (hD : Digests D)
    (hn : m (Key.version.text space) = some (.int n, none)) {text : String} (htext : D topic text)
    {v : Value} {t : Option ℤ} (hgood : good text (v, t)) :
    Versioned D topic good space (m.set ((topic.key n text).text space) v t) := by
  have hknown : Known D (topic.key n text) := Topic.known_key htext
  intro w text' p hD' hp
  rw [set_known hD hknown m v t (l := .version) trivial, if_neg (topic.key_ne_version n text).symm]
  rw [set_known hD hknown m v t (Topic.known_key hD')] at hp
  split at hp
  · next heq =>
      obtain ⟨rfl, rfl⟩ := Topic.key_inj heq
      exact ⟨w, hn, le_rfl, fun _ => Option.some.inj hp ▸ hgood⟩
  · exact h w text' p hD' hp

theorem Versioned.set_other (h : Versioned D topic good space m) (hD : Digests D) (other : Topic)
    (hne : topic ≠ other) {text : String} (htext : D other text) (v : Value) (t : Option ℤ) :
    Versioned D topic good space (m.set ((other.key n text).text space) v t) := by
  have hknown : Known D (other.key n text) := Topic.known_key htext
  intro w text' p hD' hp
  rw [set_known hD hknown m v t (l := .version) trivial, if_neg (other.key_ne_version n text).symm]
  rw [set_known hD hknown m v t (Topic.known_key hD'), if_neg] at hp
  · exact h w text' p hD' hp
  · cases topic <;> cases other <;> simp [Topic.key] at hne ⊢

end Versioned

/-! ### Versions -/

/-- A cache that answers, and whose version of the rule set, if it is there, is a number that may be
raised so many times. -/
structure Counting (shared : Bool) (left : ℕ) (c : Cache) (m : View) : Prop where
  represents : Represents shared c m
  seeds : ∀ n, IsSeed c n → Room shared left n
  version : ∀ p, m (Key.version.text c.space) = some p → ∃ n, p = (.int n, none) ∧
      Room shared left n

section counting

variable {shared : Bool} {left : ℕ} {c : Cache} {m : View}

theorem Counting.mono (h : Counting shared left c m) {left' : ℕ} (hle : left' ≤ left) :
    Counting shared left' c m where
  represents := h.represents
  seeds n hn := (h.seeds n hn).mono hle
  version p hp := (h.version p hp).imp fun _ => And.imp_right fun hroom => hroom.mono hle

theorem Counting.room (h : Counting shared left c m) {n : ℤ}
    (hstands : Stands c m (Key.version.text c.space) n) :
    Room shared left n := by
  rcases hstands with hn | ⟨-, hseed⟩
  · obtain ⟨k, hk, hroom⟩ := h.version _ hn
    obtain rfl : n = k := by simpa using hk
    exact hroom
  · exact h.seeds n hseed

theorem Counting.number (h : Counting shared left c m) :
    ∀ p, m (Key.version.text c.space) = some p → ∃ n, p = (.int n, none) :=
  fun p hp => (h.version p hp).imp fun _ => And.left

theorem Counting.read (h : Counting shared left c m) :
    ∃ n, Stands c m (Key.version.text c.space) n ∧
    (outcome rulesetVersion c).1 = .ok n ∧
    Yields shared (readCounter (Key.version.text c.space)) c n
      (m.set (Key.version.text c.space) (.int n) none) := by
  obtain ⟨n, hstands, hread⟩ :=
    readCounter_spec h.represents h.number fun n hn => (h.seeds n hn).countable
  refine ⟨n, hstands, ?_, hread⟩
  obtain ⟨c', hrun, -⟩ := hread
  rw [rulesetVersion, outcome_bind, outcome_get, andThen_ok, Key.text_version, hrun]

theorem Counting.bump (h : Counting shared (left + 1) c m) :
    ∃ n, Stands c m (Key.version.text c.space) n ∧
    (outcome rulesetVersion c).1 = .ok n ∧
    Yields shared bumpVersion c (n + 1) (m.set (Key.version.text c.space) (.int (n + 1)) none) := by
  obtain ⟨n, hstands, hversion, hread⟩ := h.read
  have hroom := h.room hstands
  refine ⟨n, hstands, hversion, yields_after (outcome_get c) (.refl _) ?_⟩
  rw [Key.text_version]
  refine yields_bind (bumpCounter_next hread hroom.countable hroom.next.countable) fun c₁ _ h₁ => ?_
  exact yields_bind (yields_note h₁ _ _ _ _) fun c₂ _ h₂ => yields_pure h₂ _

end counting

/-! ### Faithful sessions -/

/-- What is digested of a decision. -/
def decisionText (request : Request) (method : String) (caller : Caller) (rule : Rule)
    (stores : List ℤ) : String :=
  (DecisionFacts.of rule.id (Text.lower request.service.display) method request.target caller.userId
    stores
    caller.abilities caller.roles caller.permissions).toValue.toSortedJson

/-- A remembered decision is the verdict of a stored rule over the tables of a moment, and
is kept from then on. -/
structure Recorded (past : Tables → ℤ → Prop) (s : Session) (text : String)
    (p : Value × Option ℤ) where
  request : Request
  method : String
  caller : Caller
  user : ℤ
  row : RuleRow
  rule : Rule
  stores : List ℤ
  tables : Tables
  moment : ℤ
  verdict : Verdict
  huser : caller.userId = .int user
  hrow : row ∈ s.tables.rules
  hrule : row.restored = .ok rule
  hstores : stores.Pairwise (· < ·)
  htext : text = decisionText request method caller rule stores
  hpast : past tables moment
  hle : moment ≤ s.cache.clock
  hverdict :
      Policy.evaluate (tables.source s.settings.hierarchyMaxDepth) s.settings.wildcardAbility rule
      caller
    (stores.map .int) = .ok verdict
  hentry : p = (verdict.toValue, some (moment + s.settings.decisionTtl.ttlSeconds))

/-- Under the present version, the cache shows the rules of the tables, and decisions over the
tables of some moments; there is nothing under later versions. -/
structure Decided (D : Topic → String → Prop) (past : Tables → ℤ → Prop) (s : Session) (m : View) :
    Prop where
  versions : ∀ p, m (Key.version.text s.cache.space) = some p → ∃ n, p = (.int n, none)
  rules : ∀ v text p, D .rules text → m ((Key.rules v text).text s.cache.space) = some p →
    ∃ n, m (Key.version.text s.cache.space) = some (.int n, none) ∧ v ≤ n ∧
      (v = n → ∀ service method, text = rulesText service method →
        s.tables.rulesPayload service method = .ok p.1)
  decisions : ∀ v text p, D .decision text → m ((Key.decision v text).text s.cache.space) = some p →
    ∃ n, m (Key.version.text s.cache.space) = some (.int n, none) ∧ v ≤ n ∧
      (v = n → Nonempty (Recorded past s text p))

/-- A coherent session whose cache shows present rules and decisions over the tables of some
moments. -/
structure Faithful (D : Topic → String → Prop) (past : Tables → ℤ → Prop) (s : Session) (m : View) :
    Prop where
  coherent : Coherent false 0 s m
  decided : Decided D past s m
  keyed : Table.rules.Keyed s.tables.rules

variable {past past' : Tables → ℤ → Prop} {s s' : Session} {m m' : View} {α β : Type}

theorem Coherent.memory {left : ℕ} (h : Coherent false left s m) (left' : ℕ) :
    Coherent false left' s m where
  represents := h.represents
  seeds n _ := room_memory left' n
  graphs := h.graphs
  edges := h.edges
  assignments := h.assignments
  tells := h.tells.mono fun n _ => room_memory left' n

theorem Decided.versionedRules (h : Decided D past s m) :
    Versioned D .rules (fun text p => ∀ service method,
    text = rulesText service method →
      s.tables.rulesPayload service method = .ok p.1) s.cache.space m := h.rules

theorem Decided.versionedDecisions (h : Decided D past s m) :
    Versioned D .decision (fun text p => Nonempty (Recorded past s text p)) s.cache.space m :=
  h.decisions

/-! ### Time -/

/-- A recorded decision stays one while rules and settings stay, and time goes on. -/
def Recorded.later {text : String} {p : Value × Option ℤ} (h : Recorded past s text p)
    (hpasses : Passes s m s' m') (hpast : ∀ t c, past t c → past' t c) : Recorded past' s' text p :=
  { h with
    hrow := hpasses.rules ▸ h.hrow
    hpast := hpast _ _ h.hpast
    hle := h.hle.trans hpasses.clock
    hverdict := by rw [hpasses.settings]; exact h.hverdict
    hentry := by rw [hpasses.settings]; exact h.hentry }

/-- What is decided stays so while time goes by, and through what rules do not depend on. -/
theorem Decided.later (h : Decided D past s m) (hpasses : Passes s m s' m')
    (hpast : ∀ t c, past t c → past' t c) :
    Decided D past' s' m' where
  versions p hp := by
    rw [hpasses.space] at hp
    exact h.versions p (hpasses.fades.less .version p rfl hp)
  rules := by
    rw [hpasses.space]
    refine h.versionedRules.later hpasses.fades fun text p htrue service method htext => ?_
    rw [← htrue service method htext]
    unfold Tables.rulesPayload Tables.activeRules
    rw [hpasses.rules]
  decisions := by
    rw [hpasses.space]
    exact h.versionedDecisions.later hpasses.fades fun text p hrecorded =>
      hrecorded.map fun r => r.later hpasses hpast

theorem Faithful.later (h : Faithful D past s m) (hpasses : Passes s m s' m')
    (hcoherent : Coherent false 0 s' m') (hpast : ∀ t c, past t c → past' t c) :
    Faithful D past' s' m' where
  coherent := hcoherent
  decided := h.decided.later hpasses hpast
  keyed := hpasses.rules ▸ h.keyed

theorem Kept.passes (h : Kept s s') (m : View) : Passes s m s' m where
  settings := h.settings
  rules := by rw [h.tables]
  space := h.cache.space
  clock := h.cache.clock.ge
  fades := (Unmoved.refl _ m).fades

/-! ### Entries -/

section entries

variable {n : ℤ}

theorem Decided.version (h : Decided D past s m)
    (hstands : m (Key.version.text s.cache.space) = some (.int n, none) ∨
      m (Key.version.text s.cache.space) = none) :
    Decided D past s (m.set (Key.version.text s.cache.space) (.int n) none) where
  versions p hp := by
    rw [View.set_same] at hp
    exact ⟨n, (Option.some.inj hp).symm⟩
  rules := h.versionedRules.version hstands
  decisions := h.versionedDecisions.version hstands

theorem Decided.renewed (h : Decided D past s m) (hspace : s'.cache.space = s.cache.space)
    (hstands : m (Key.version.text s.cache.space) = some (.int n, none) ∨
      m (Key.version.text s.cache.space) = none) :
    Decided D past' s' (m.set (Key.version.text s.cache.space) (.int (n + 1)) none) where
  versions p hp := by
    rw [hspace, View.set_same] at hp
    exact ⟨n + 1, (Option.some.inj hp).symm⟩
  rules := by
    rw [hspace]
    exact h.versionedRules.renewed hstands
  decisions := by
    rw [hspace]
    exact h.versionedDecisions.renewed hstands

/-- The rules of the tables may be remembered under the present version. -/
theorem Decided.setRules (h : Decided D past s m) (hD : Digests D)
    (hn : m (Key.version.text s.cache.space) = some (.int n, none)) {service method : String}
    (htext : D .rules (rulesText service method)) {v : Value}
    (hv : s.tables.rulesPayload service method = .ok v) (t : Option ℤ) :
    Decided D past s (m.set ((Key.rules n (rulesText service method)).text s.cache.space) v t) where
  versions p hp := by
    rw [set_known hD (k := .rules n (rulesText service method)) htext m v t (l := .version) trivial,
      if_neg (by simp)] at hp
    exact h.versions p hp
  rules := by
    refine h.versionedRules.set hD hn htext fun service' method' hsame => ?_
    obtain ⟨rfl, rfl⟩ := rulesText_inj hsame
    exact hv
  decisions := h.versionedDecisions.set_other hD .rules (by simp) htext v t

theorem Decided.setDecision (h : Decided D past s m) (hD : Digests D)
    (hn : m (Key.version.text s.cache.space) = some (.int n, none)) {text : String}
    (htext : D .decision text) {v : Value} {t : Option ℤ}
    (hrecorded : Recorded past s text (v, t)) :
    Decided D past s (m.set ((Key.decision n text).text s.cache.space) v t) where
  versions p hp := by
    rw [set_known hD (k := .decision n text) htext m v t (l := .version) trivial,
      if_neg (by simp)] at hp
    exact h.versions p hp
  rules := h.versionedRules.set_other hD .decision (by simp) htext v t
  decisions := h.versionedDecisions.set hD hn htext ⟨hrecorded⟩

end entries

end Session
end AccessControl
