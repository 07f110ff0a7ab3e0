import AccessControl.Proofs.Session.Authorization
import AccessControl.Proofs.Session.RuleSteps
import Mathlib

/-! # Verdicts in a run

The moments of a run are those before and after each of its actions (`stateAt`).  Changes of rules,
changes of the hierarchy and the assignments, requests and time keep a session faithful to the
moments so far (`faithful_stateAt`), so every verdict, or failure, is the one without a cache, by
the rules of the moment and by the permissions of a moment that is not longer ago than decisions are
kept (`authorize_run`). -/

namespace AccessControl
namespace Session

open Cache Database

variable {D : Topic → String → Prop} {past past' : Tables → ℤ → Prop} {s s' : Session} {m : View}

/-! ### Changes of rules -/

theorem bumpVersion_spec (h : Faithful D past s m) :
    ∃ n, (m (Key.version.text s.cache.space) = some (.int n, none) ∨
      m (Key.version.text s.cache.space) = none) ∧
      Yields false bumpVersion s.cache (n + 1)
        (m.set (Key.version.text s.cache.space) (.int (n + 1)) none) := by
  have hcounting : Counting false 1 s.cache m := by
    refine ⟨h.coherent.represents, fun n _ => room_memory 1 n, fun p hp => ?_⟩
    exact (h.decided.versions p hp).imp fun n hn => ⟨hn, room_memory 1 n⟩
  obtain ⟨n, hstands, -, hbump⟩ := hcounting.bump
  exact ⟨n, hstands.imp_right And.left, hbump⟩

/-- The version of the rule set does not go down, and as long as it is the same, the rules are. -/
structure Ages (s : Session) (m : View) (s' : Session) (m' : View) : Prop where
  settings : s'.settings = s.settings
  space : s'.cache.space = s.cache.space
  version : ∀ n, m (Key.version.text s.cache.space) = some (.int n, none) →
    ∃ n', m' (Key.version.text s.cache.space) = some (.int n', none) ∧ n ≤ n' ∧
      (n' = n → s'.tables.rules = s.tables.rules)

theorem Ages.trans {s₁ s₂ : Session} {m₁ m₂ : View} (h : Ages s m s₁ m₁) (h' : Ages s₁ m₁ s₂ m₂) :
    Ages s m s₂ m₂ where
  settings := h'.settings.trans h.settings
  space := h'.space.trans h.space
  version n hn := by
    obtain ⟨n₁, hn₁, hle, hrules⟩ := h.version n hn
    rw [← h.space] at hn₁
    obtain ⟨n₂, hn₂, hle', hrules'⟩ := h'.version n₁ hn₁
    rw [h.space] at hn₂
    refine ⟨n₂, hn₂, hle.trans hle', fun heq => ?_⟩
    have hsame : n₁ = n := by omega
    have hsame' : n₂ = n₁ := by omega
    exact (hrules' hsame').trans (hrules hsame)

theorem ages_kept (hkept : Kept s s') {m' : View} (hversion : KeepsVersion s.cache.space m m') :
    Ages s m s' m' where
  settings := hkept.settings
  space := hkept.cache.space
  version n hn := ⟨n, hversion n hn, le_rfl, fun _ => by rw [hkept.tables]⟩

theorem Ages.refl (s : Session) (m : View) : Ages s m s m := ages_kept (.refl s) fun _ hn => hn

theorem Passes.ages {m' : View} (h : Passes s m s' m') : Ages s m s' m' where
  settings := h.settings
  space := h.space
  version n hn := ⟨n, h.fades.kept .version _ rfl hn, le_rfl, fun _ => h.rules⟩

/-- A session that is still faithful, and not younger. -/
def Stays (D : Topic → String → Prop) (past : Tables → ℤ → Prop) (s : Session) (m : View)
    (s' : Session) : Prop :=
  ∃ m', Faithful D past s' m' ∧ Ages s m s' m'

theorem Faithful.stays (h : Faithful D past s m) : Stays D past s m s := ⟨m, h, .refl s m⟩

theorem Stays.after {s₁ : Session} (h : Stays D past s m s₁)
    (hnext : ∀ m₁, Faithful D past s₁ m₁ → Stays D past s₁ m₁ s') : Stays D past s m s' := by
  obtain ⟨m₁, h₁, hages⟩ := h
  obtain ⟨m₂, h₂, hages'⟩ := hnext m₁ h₁
  exact ⟨m₂, h₂, hages.trans hages'⟩

theorem Noted.passes (hnoted : Noted s s') (m : View) : Passes s m s' m :=
  ⟨hnoted.settings, by rw [hnoted.tables], by rw [hnoted.cache], by
    rw [hnoted.cache], (Unmoved.refl _ m).fades⟩

theorem stays_noted (h : Faithful D past s m) (hnoted : Noted s s') : Stays D past s m s' :=
  ⟨m, h.later (hnoted.passes m) (h.coherent.noted hnoted) fun _ _ hpast => hpast,
   (hnoted.passes m).ages⟩

/-- A change of the rules makes old what was decided. -/
theorem stays_afterRules (h : Faithful D past s m) {t : Tables} (hchange : RulesChange s.tables t) :
    Stays D past s m (afterRules t s) := by
  have hframe := hchange.frame h.keyed
  obtain ⟨n, hstands, c, hrun, hsteady, hrep⟩ := bumpVersion_spec h
  have hafter : afterRules t s = ({ s with tables := t } : Session).withCache c := by
    unfold afterRules
    rw [outcome_onCache, hrun]
    rfl
  rw [hafter]
  have hcoherent := h.coherent.rules hchange.rest
  have htells := hcoherent.tells.set_other (k := .version) rfl (.int (n + 1)) none
  refine ⟨_,
    ⟨hcoherent.withCache hsteady hrep htells, h.decided.renewed hsteady.space hstands,
     hframe.keyed⟩,
    rfl, hsteady.space, fun k hk => ?_⟩
  obtain rfl : k = n := by
    rcases hstands with hn | hnone
    · simpa [hk] using hn
    · rw [hnone] at hk
      cases hk
  exact ⟨k + 1, View.set_same .., by omega, fun heq => by omega⟩

theorem stays_ruleStep (h : Faithful D past s m) (hstep : RuleStep s s') : Stays D past s m s' := by
  rcases hstep with hnoted | ⟨t, hwrite, hnoted⟩
  · exact stays_noted h hnoted
  · exact (stays_afterRules h hwrite.change).after fun m₁ h₁ => stays_noted h₁ hnoted

theorem stays_ruleSteps (h : Faithful D past s m) (hsteps : RuleSteps s s') :
    Stays D past s m s' := by
  induction hsteps with
  | refl => exact h.stays
  | tail _ hstep ih => exact ih.after fun m₁ h₁ => stays_ruleStep h₁ hstep

/-! ### Actions -/

/-- Something that happens to a session that decides: the rules change, a request of a caller is
decided about, or something happens that rules do not depend on. -/
inductive Action where
  | rules (call : RuleCall)
  | authorize (request : Request) (user : Option ℤ) (roles permissions abilities : List String)
  | event (event : Event)

/-- A caller that is a user with a number, or nobody in particular. -/
def callerOf (user : Option ℤ) (roles permissions abilities : List String) : Caller :=
  ⟨Value.ofOption .int user, roles, permissions, abilities⟩

theorem numbered_callerOf (user : Option ℤ) (roles permissions abilities : List String) :
    Numbered (callerOf user roles permissions abilities) := by
  cases user with
  | none => exact .inl rfl
  | some u => exact .inr ⟨u, rfl⟩

/-- The session after an action. -/
def afterAction (s : Session) : Action → Session
  | .rules call => afterRuleCall call s
  | .authorize request user roles permissions abilities =>
      (outcome (Session.authorize true request (callerOf user roles permissions abilities)) s).2
  | .event event => s.afterEvent event

/-- What is digested for an action. -/
def DigestedBy (s : Session) : Action → Topic → String → Prop
  | .authorize request user roles permissions abilities, topic, text =>
      Digested s.tables request (callerOf user roles permissions abilities) topic text
  | _, _, _ => False

theorem stays_action (h : Faithful D past s m) (hD : Digests D)
    (hpresent : past s.tables s.cache.clock) (action : Action)
    (hknown : ∀ topic text, DigestedBy s action topic text → D topic text) :
    Stays D past s m (s.afterAction action) := by
  cases action with
  | rules call => exact stays_ruleSteps h (steps_ruleCall call s)
  | authorize request user roles permissions abilities =>
      have hcaller := numbered_callerOf user roles permissions abilities
      obtain ⟨r, s', m', hrun, hkept, h', -, hversion⟩ :=
        gives_authorize h hD hpresent hcaller hknown
      have hafter : s.afterAction (.authorize request user roles permissions abilities) = s' :=
        congrArg Prod.snd hrun
      rw [hafter]
      exact ⟨m', h', ages_kept hkept hversion⟩
  | event event =>
      obtain ⟨m', hcoherent, hpasses⟩ := coherent_event (h.coherent.memory 1) event
      exact ⟨m', h.later hpasses hcoherent fun _ _ hpast => hpast, hpasses.ages⟩

/-! ### Runs -/

/-- The session after the first actions of a run. -/
def stateAt (s : Session) (actions : List Action) (k : ℕ) : Session :=
  (actions.take k).foldl afterAction s

variable {actions : List Action}

theorem stateAt_succ {k : ℕ} {action : Action} (hk : actions[k]? = some action) :
    stateAt s actions (k + 1) = (stateAt s actions k).afterAction action := by
  unfold stateAt
  rw [List.take_add_one, hk, Option.toList_some, List.foldl_append]
  rfl

/-- The moments of a run so far, by their tables and their time. -/
def Moment (s : Session) (actions : List Action) (k : ℕ) (t : Tables) (clock : ℤ) : Prop :=
  ∃ j ≤ k, t = (stateAt s actions j).tables ∧ clock = (stateAt s actions j).cache.clock

/-- What is digested in a run. -/
def DigestedIn (s : Session) (actions : List Action) (topic : Topic) (text : String) : Prop :=
  ∃ k action, actions[k]? = some action ∧ DigestedBy (stateAt s actions k) action topic text

theorem faithful_fresh {left : ℕ} (hs : s.Fresh false left)
    (hrules : Table.rules.Keyed s.tables.rules) :
    Faithful D past s fun _ => none where
  coherent := (coherent_fresh hs).memory 0
  decided :=
    ⟨fun p hp => (by cases hp), fun v text p _ hp => (by cases hp),
     fun v text p _ hp => (by cases hp)⟩
  keyed := hrules

/-- From a moment of a run on, the session stays faithful to the moments so far. -/
theorem stays_stateAt (hD : Digests (DigestedIn s actions)) {j k : ℕ} (hjk : j ≤ k)
    (hk : k ≤ actions.length)
    (h : Faithful (DigestedIn s actions) (Moment s actions j) (stateAt s actions j) m) :
    Stays (DigestedIn s actions) (Moment s actions k) (stateAt s actions j) m
      (stateAt s actions k) := by
  induction k, hjk using Nat.le_induction with
  | base => exact h.stays
  | succ k hjk ih =>
      obtain ⟨m₁, h₁, hages⟩ := ih (by omega)
      obtain ⟨action, haction⟩ : ∃ action, actions[k]? = some action :=
        ⟨_, List.getElem?_eq_getElem (by omega)⟩
      obtain ⟨m₂, h₂, hages'⟩ := stays_action h₁ hD ⟨k, le_rfl, rfl, rfl⟩ action
        fun topic text hdigests => ⟨k, action, haction, hdigests⟩
      rw [stateAt_succ haction]
      refine ⟨m₂, h₂.later ((Kept.refl _).passes m₂) h₂.coherent ?_, hages.trans hages'⟩
      exact fun t c ⟨i, hi, hmoment⟩ => ⟨i, by omega, hmoment⟩

/-- All through a run, the session is faithful to the moments so far. -/
theorem faithful_stateAt {left : ℕ} (hs : s.Fresh false left)
    (hrules : Table.rules.Keyed s.tables.rules) (hD : Digests (DigestedIn s actions)) {k : ℕ}
    (hk : k ≤ actions.length) :
    ∃ m, Faithful (DigestedIn s actions) (Moment s actions k) (stateAt s actions k) m ∧
      Ages s (fun _ => none) (stateAt s actions k) m :=
  stays_stateAt hD (Nat.zero_le k) hk (faithful_fresh hs hrules)

/-- Whatever was changed, decided and asked before, the verdict on a request, or the failure, is the
one that is found without a cache: by the rules of the moment, and by the permissions of a moment of
the run that is not longer ago than decisions are kept. -/
theorem authorize_run (s : Session) (actions : List Action) (hs : s.Fresh false actions.length)
    (hrules : Table.rules.Keyed s.tables.rules) (hD : Digests (DigestedIn s actions)) {k : ℕ}
    {request : Request} {user : Option ℤ} {roles permissions abilities : List String}
    (hk : actions[k]? = some (.authorize request user roles permissions abilities)) :
    ∃ j ≤ k, (stateAt s actions j).cache.clock ≤ (stateAt s actions k).cache.clock ∧
      (stateAt s actions k).cache.clock < (stateAt s actions j).cache.clock +
        s.settings.decisionTtl.ttlSeconds ∧
      (outcome (authorize true request (callerOf user roles permissions abilities))
        (stateAt s actions k)).1 =
        plainVerdict s.settings (stateAt s actions k).tables (stateAt s actions j).tables request
          (callerOf user roles permissions abilities) := by
  have hlt : k < actions.length := (List.getElem?_eq_some_iff.mp hk).1
  obtain ⟨m, h, hages⟩ := faithful_stateAt hs hrules hD hlt.le
  obtain ⟨r, s', m', hrun, -, -, ⟨t, moment, ⟨j, hj, rfl, rfl⟩, hle, hlt, hverdict⟩, -⟩ :=
    gives_authorize h hD ⟨k, le_rfl, rfl, rfl⟩ (numbered_callerOf user roles permissions abilities)
      fun topic text hdigested => ⟨k, _, hk, hdigested⟩
  rw [hages.settings] at hlt hverdict
  refine ⟨j, hj, hle, hlt, ?_⟩
  rw [hrun]
  exact hverdict.symm

/-- For one request of one caller, the texts about one thing are the same. -/
theorem Digested.unique {t : Tables} {request : Request} {caller : Caller} {topic : Topic}
    {a b : String} (ha : Digested t request caller topic a)
    (hb : Digested t request caller topic b) : a = b := by
  cases ha with
  | rules service method word hservice hmethod hword =>
      cases hb with
      | rules service' method' word' hservice' hmethod' hword' =>
          obtain rfl : service = service' := by simpa [hservice] using hservice'
          obtain rfl : method = method' := by simpa [hmethod] using hmethod'
          obtain rfl : word = word' := by simpa [hword] using hword'
          rfl
  | decision method rule stores hmethod hrule =>
      cases hb with
      | decision method' rule' stores' hmethod' hrule' =>
          obtain rfl : method = method' := by simpa [hmethod] using hmethod'
          obtain ⟨rfl, rfl⟩ : rule = rule' ∧ stores = stores' := by simpa [hrule] using hrule'
          rfl

/-- Orders of a store may be read by those who have the permission there. -/
def readOrders : RuleChange where
  service := some (some "shop")
  method := some (some "GET")
  pattern := some (some "/orders")
  routeName := none
  rolesAny := none
  permissionsAny := some (some ["orders.read"])
  permissionsAll := none
  bypassRoles := none
  bypassPermissions := none
  scope := some (some "scoped")
  sources := none
  matching := some (some "any")
  allowsEmpty := some (some false)
  isActive := some (some true)
  priority := some (some 0)

/-- The orders of the store are asked for. -/
def askForOrders : Request :=
  ⟨.text "shop", .text "GET", .text "/orders", .null, ⟨[], [("store_id", .int 1)], []⟩⟩

/-- The rule is made, the user joins the staff, and some time later asks for the orders. -/
def opening : List Action :=
  [.rules (.create readOrders), .event (.assignment (.assign 1 2 1 .null true)),
   .event (.advance 5), .authorize askForOrders (some 1) [] [] []]

theorem authorize_run_opening :
    (outcome (authorize true askForOrders (callerOf (some 1) [] [] []))
      (stateAt oneStore opening 3)).1.toOption.map (·.authorized) = some true ∧
      ∃ j ≤ 3, (stateAt oneStore opening j).cache.clock ≤ (stateAt oneStore opening 3).cache.clock ∧
        (stateAt oneStore opening 3).cache.clock <
          (stateAt oneStore opening j).cache.clock + oneStore.settings.decisionTtl.ttlSeconds ∧
        (outcome (authorize true askForOrders (callerOf (some 1) [] [] []))
          (stateAt oneStore opening 3)).1 =
          plainVerdict oneStore.settings (stateAt oneStore opening 3).tables
            (stateAt oneStore opening j).tables askForOrders (callerOf (some 1) [] [] []) := by
  have hfresh : oneStore.Fresh false opening.length :=
    fresh_memory (s := oneStore) rfl rfl List.nodup_nil List.nodup_nil _
  have hasked : ∀ k action, opening[k]? = some action → ∀ topic text,
      DigestedBy (stateAt oneStore opening k) action topic text →
        Digested (stateAt oneStore opening 3).tables askForOrders (callerOf (some 1) [] [] []) topic
          text := by
    intro k action hk topic text hdigested
    rcases k with _ | _ | _ | _ | k
    all_goals cases hk
    all_goals first | exact hdigested | exact hdigested.elim
  have hD : Digests (DigestedIn oneStore opening) := by
    rintro topic a b ⟨k, action, hk, ha⟩ ⟨k', action', hk', hb⟩ -
    exact (hasked k action hk topic a ha).unique (hasked k' action' hk' topic b hb)
  have hanswer : (outcome (authorize true askForOrders (callerOf (some 1) [] [] []))
      (stateAt oneStore opening 3)).1.toOption.map (·.authorized) = some true := by decide +kernel
  exact ⟨hanswer, authorize_run oneStore opening hfresh List.nodup_nil hD rfl⟩

end Session
end AccessControl
