import AccessControl.Proofs.Database.Rows
import AccessControl.Proofs.Rule.Sound
import AccessControl.Proofs.Session.Edges
import AccessControl.Session.Rules
import Mathlib

/-! # What the operations of rules do

A call about one rule is either refused, and leaves the session as it is, notes apart, or it writes
to the stored rules and then raises the version of the rule set (`createRule_cases`,
`updateRule_cases`, `deleteRule_cases`, `toggleRule_cases`).  All that a write can do is a
`RuleWrite`, and several rules are created by as many of them (`path_ruleCall`).  What every write
keeps is true of all stored rules that calls can lead to (`Reachable.induct`). -/

namespace AccessControl
namespace Session

open Database

/-! ### Changes -/

/-- What a call may do to the tables: one rule is added, removed or replaced.  A new rule takes the
next number and is sound, and a rule that takes the place of a sound one is sound. -/
inductive RulesChange (t : Tables) : Tables → Prop
  | added (row : RuleRow) (t' : Tables) (hid : row.id = Table.rules.nextId t) (hsound : row.Sound)
      (hinsert : Table.rules.insert t row = .ok t') : RulesChange t t'
  | removed (id : ℤ) : RulesChange t (Table.rules.drop t id)
  | replaced (old row : RuleRow) (hold : old ∈ t.rules) (hid : row.id = old.id)
      (hsound : old.Sound → row.Sound) :
      RulesChange t (Table.rules.replace t row)

theorem RulesChange.rest {t t' : Tables} (h : RulesChange t t') :
    t' = { t with rules := t'.rules } := by
  cases h with
  | added row _ _ _ hinsert =>
      obtain ⟨-, rfl⟩ := Table.insert_eq_ok _ hinsert
      rfl
  | removed id => rfl
  | replaced old row _ _ _ => rfl

/-- Rules keep numbers of their own, each of them is one that stood there or the next one, and
sound rules stay sound. -/
structure RulesFrame (t t' : Tables) : Prop where
  keyed : Table.rules.Keyed t'.rules
  ids : ∀ row ∈ t'.rules, row.id = 1 ∨ ∃ r ∈ t.rules, row.id = r.id ∨ row.id = r.id + 1
  sound : (∀ r ∈ t.rules, r.Sound) → ∀ row ∈ t'.rules, row.Sound

theorem nextId_cases (t : Tables) :
    Table.rules.nextId t = 1 ∨ ∃ r ∈ t.rules, Table.rules.nextId t = r.id + 1 := by
  unfold Table.nextId
  cases hlast : (Table.rules.rows t).getLast? with
  | none => exact .inl rfl
  | some r => exact .inr ⟨r, List.mem_of_getLast? hlast, rfl⟩

theorem RulesChange.frame {t t' : Tables} (h : RulesChange t t') (ht : Table.rules.Keyed t.rules) :
    RulesFrame t t' := by
  cases h with
  | added row _ hid hsound hinsert =>
      obtain ⟨hadmits, rfl⟩ := Table.insert_eq_ok _ hinsert
      have hmem : ∀ r, r ∈ Table.rules.place row t.rules → r = row ∨ r ∈ t.rules := fun r hr =>
        List.mem_cons.mp ((Table.place_perm _ row t.rules).mem_iff.mp hr)
      refine ⟨ht.place fun r hr => (Table.ne_of_admits _ hadmits r hr).1, fun r hr => ?_,
        fun hall r hr => ?_⟩
      · rcases hmem r hr with rfl | hr
        · rw [hid]
          exact (nextId_cases t).imp_right fun ⟨last, hlast, heq⟩ => ⟨last, hlast, .inr heq⟩
        · exact .inr ⟨r, hr, .inl rfl⟩
      · rcases hmem r hr with rfl | hr
        · exact hsound
        · exact hall r hr
  | removed id =>
      have hmem : ∀ r ∈ (Table.rules.drop t id).rules, r ∈ t.rules :=
        fun r hr => (List.mem_filter.mp hr).1
      exact ⟨ht.filter _, fun r hr => .inr ⟨r, hmem r hr, .inl rfl⟩,
        fun hall r hr => hall r (hmem r hr)⟩
  | replaced old row hold hid hsound =>
      refine ⟨ht.swapIn row, fun r hr => ?_, fun hall r hr => ?_⟩
      · obtain ⟨r, hmem, rfl⟩ := List.mem_map.mp hr
        exact .inr ⟨r, hmem, .inl (@Table.id_swapIn _ Table.rules row r)⟩
      · obtain ⟨r, hmem, rfl⟩ := List.mem_map.mp hr
        split
        · exact hsound (hall old hold)
        · exact hall r hmem

/-! ### Writes -/

/-- A rule is new among others: its draft is settled, its priority is passed, and it is put in
under the next number. -/
structure NewRule (c : RuleChange) (t : Tables) (row : RuleRow) (t' : Tables) : Prop where
  settled : ∃ d, (Draft.empty.apply c).settle true = .ok d ∧ row = d.toRow (Table.rules.nextId t)
  passed : ∃ v, passed row.priority = .ok v
  inserted : Table.rules.insert t row = .ok t'

/-- A rule is an old one after a change: its draft is settled, and its priority is passed. -/
structure ChangedRule (old : RuleRow) (c : RuleChange) (row : RuleRow) : Prop where
  settled : ∃ d, ((Draft.ofRow old).apply c).settle ((Draft.ofRow old).changesPattern c) = .ok d ∧
      row = d.toRow old.id
  passed : ∃ v, passed row.priority = .ok v

/-- All that a call may write. -/
inductive RuleWrite (t : Tables) : Tables → Prop
  | new (c : RuleChange) (row : RuleRow) (t' : Tables) (hnew : NewRule c t row t') : RuleWrite t t'
  | changed (c : RuleChange) (old row : RuleRow) (hold : old ∈ t.rules)
      (hchanged : ChangedRule old c row) :
      RuleWrite t (Table.rules.replace t row)
  | removed (old : RuleRow) (hold : old ∈ t.rules) : RuleWrite t (Table.rules.drop t old.id)
  | toggled (old : RuleRow) (flag : Bool) (hold : old ∈ t.rules) :
      RuleWrite t (Table.rules.replace t { old with isActive := flag })

theorem NewRule.sound {c : RuleChange} {t t' : Tables} {row : RuleRow} (h : NewRule c t row t') :
    row.Sound := by
  obtain ⟨⟨d, hsettle, rfl⟩, ⟨v, hpassed⟩, -⟩ := h
  exact ((Draft.sound_empty.change c).settle hsettle).toRow hpassed

theorem ChangedRule.sound {c : RuleChange} {old row : RuleRow} (h : ChangedRule old c row)
    (hold : old.Sound) :
    row.Sound := by
  obtain ⟨⟨d, hsettle, rfl⟩, ⟨v, hpassed⟩⟩ := h
  exact (((Draft.sound_ofRow hold).change c).settle hsettle).toRow hpassed

theorem ChangedRule.priority {c : RuleChange} {old row : RuleRow} (h : ChangedRule old c row)
    (hold : ∃ n, old.priority = .int n ∧ fits n) : ∃ n, row.priority = .int n ∧ fits n := by
  obtain ⟨⟨d, hsettle, rfl⟩, ⟨v, hpassed⟩⟩ := h
  obtain ⟨n, hn, -⟩ := hold
  refine Draft.exists_priority_toRow ?_ hpassed
  rw [(Draft.columns_settle hsettle).2.2]
  exact Draft.exists_priority_apply (d := .ofRow old) ⟨n, hn⟩ c

theorem NewRule.id_eq {c : RuleChange} {t t' : Tables} {row : RuleRow} (h : NewRule c t row t') :
    row.id = Table.rules.nextId t := by
  obtain ⟨d, -, rfl⟩ := h.settled
  rfl

theorem ChangedRule.id_eq {c : RuleChange} {old row : RuleRow} (h : ChangedRule old c row) :
    row.id = old.id := by
  obtain ⟨d, -, rfl⟩ := h.settled
  rfl

theorem RuleWrite.change {t t' : Tables} (h : RuleWrite t t') : RulesChange t t' := by
  cases h with
  | new c row t' hnew => exact .added row t' hnew.id_eq hnew.sound hnew.inserted
  | changed c old row hold hchanged => exact .replaced old row hold hchanged.id_eq hchanged.sound
  | removed old _ => exact .removed old.id
  | toggled old flag hold =>
      exact .replaced old _ hold rfl fun hsound => ⟨hsound.names, hsound.sources, hsound.priority⟩

/-- What new and changed rules meet is met by all rules that a write leaves, if it was before. -/
theorem RuleWrite.forall_rules {P : RuleRow → Prop} {t t' : Tables} (h : RuleWrite t t')
    (hnew : ∀ {c row t'}, NewRule c t row t' → P row)
    (hchanged : ∀ {c old row}, ChangedRule old c row → P old → P row)
    (htoggled : ∀ {old} flag, P old → P { old with isActive := flag })
    (ht : ∀ row ∈ t.rules, P row) :
    ∀ row ∈ t'.rules, P row := by
  have hreplace : ∀ {new : RuleRow}, P new → ∀ row ∈ (Table.rules.replace t new).rules, P row := by
    intro new hrow row hmem
    obtain ⟨r, hr, rfl⟩ := List.mem_map.mp hmem
    split
    · exact hrow
    · exact ht r hr
  cases h with
  | new c row t' hrow =>
      obtain ⟨-, rfl⟩ := Table.insert_eq_ok _ hrow.inserted
      intro r hr
      rcases List.mem_cons.mp ((Table.place_perm _ row t.rules).mem_iff.mp hr) with rfl | hr
      · exact hnew hrow
      · exact ht r hr
  | changed c old row hold hrow => exact hreplace (hchanged hrow (ht old hold))
  | removed old hold => exact fun r hr => ht r (List.mem_filter.mp hr).1
  | toggled old flag hold => exact hreplace (htoggled flag (ht old hold))

/-! ### Steps of a run -/

/-- The session after a change of the rules and after the version of the rule set is raised. -/
def afterRules (t : Tables) (s : Session) : Session :=
  (outcome (liftM Cache.bumpVersion : SessionM ℤ) { s with tables := t }).2

/-- A call either makes notes only, or writes a rule. -/
def RuleStep (s s' : Session) : Prop :=
  Noted s s' ∨ ∃ t, RuleWrite s.tables t ∧ Noted (afterRules t s) s'

/-- Steps that change rules. -/
def RuleSteps : Session → Session → Prop := Relation.ReflTransGen RuleStep

/-- Not more than so many steps that change rules. -/
inductive RulePath : ℕ → Session → Session → Prop
  | refl (k : ℕ) (s : Session) : RulePath k s s
  | head {k : ℕ} {s s₁ s' : Session} (hstep : RuleStep s s₁) (hrest : RulePath k s₁ s') :
      RulePath (k + 1) s s'

theorem RulePath.single {k : ℕ} {s s' : Session} (h : RuleStep s s') : RulePath (k + 1) s s' :=
  .head h (.refl k s')

theorem RulePath.steps {k : ℕ} {s s' : Session} (h : RulePath k s s') : RuleSteps s s' := by
  induction h with
  | refl => exact .refl
  | head hstep _ ih => exact .head hstep ih

theorem RulePath.mono {k l : ℕ} {s s' : Session} (h : RulePath k s s') (hle : k ≤ l) :
    RulePath l s s' := by
  induction h generalizing l with
  | refl => exact .refl l _
  | head hstep _ ih =>
      obtain ⟨l, rfl⟩ : ∃ l', l = l' + 1 := ⟨l - 1, by omega⟩
      exact .head hstep (ih (by omega))

/-! ### What stays -/

/-- Nothing but rules is changed, and nothing is saved. -/
structure OnlyRules (s s' : Session) : Prop where
  saved : s'.saved = s.saved
  rest : s'.tables = { s.tables with rules := s'.tables.rules }

theorem OnlyRules.refl (s : Session) : OnlyRules s s := ⟨rfl, rfl⟩

theorem OnlyRules.trans {s₁ s₂ s₃ : Session} (h : OnlyRules s₁ s₂) (h' : OnlyRules s₂ s₃) :
    OnlyRules s₁ s₃ where
  saved := h'.saved.trans h.saved
  rest := by rw [h'.rest, h.rest]

theorem Noted.onlyRules {s s' : Session} (h : Noted s s') : OnlyRules s s' :=
  ⟨h.saved, by rw [h.tables]⟩

theorem RuleStep.onlyRules {s s' : Session} (h : RuleStep s s') : OnlyRules s s' := by
  rcases h with hnoted | ⟨t, hwrite, hnoted⟩
  · exact hnoted.onlyRules
  · have hafter : OnlyRules s (afterRules t s) := by
      unfold afterRules
      rw [outcome_onCache]
      exact ⟨rfl, hwrite.change.rest⟩
    exact hafter.trans hnoted.onlyRules

theorem RulePath.onlyRules {k : ℕ} {s s' : Session} (h : RulePath k s s') : OnlyRules s s' := by
  induction h with
  | refl => exact .refl _
  | head hstep _ ih => exact hstep.onlyRules.trans ih

/-! ### Calls about one rule -/

section single

variable {α : Type} {s : Session} {t : Tables} {a : α} {key : Value}

/-- Raises the version of the rule set after a write, and notes what was written. -/
def finish (event : String) (details : Fields) (a : α) : SessionM α := do
  let _ ← (Cache.bumpVersion : CacheM Int)
  noteRule event details
  return a

/-- The operation fails, and leaves the session as it is, notes apart. -/
def Refused (operation : SessionM α) (s : Session) : Prop :=
  ∃ e s', outcome operation s = (.error e, s') ∧ Noted s s'

/-- The operation writes the tables, and gives its result once the version is raised. -/
def Writes (operation : SessionM α) (s : Session) (t : Tables) (a : α) : Prop :=
  ∃ event details, outcome operation s = outcome (finish event details a) { s with tables := t }

theorem Refused.step {operation : SessionM α} (h : Refused operation s) :
    RuleStep s (outcome operation s).2 := by
  obtain ⟨e, s', hrun, hnoted⟩ := h
  rw [hrun]
  exact .inl hnoted

theorem Writes.step {operation : SessionM α} (h : Writes operation s t a)
    (hwrite : RuleWrite s.tables t) :
    RuleStep s (outcome operation s).2 := by
  obtain ⟨event, details, hrun⟩ := h
  refine .inr ⟨t, hwrite, ?_⟩
  rw [hrun, finish, outcome_bind]
  exact noted_andThen _ _ fun _ s => noted_records s _

theorem outcome_settled (d : Draft) (id : Option ℤ) (patternChanged : Bool) (s : Session) :
    (∃ d', outcome (settled d id patternChanged) s = (.ok d', s) ∧
      d.settle patternChanged = .ok d') ∨
      ∃ problems s', outcome (settled d id patternChanged) s = (.error (.rule problems), s') ∧
        Noted s s' ∧
        d.settle patternChanged = .error problems := by
  unfold settled
  cases d.settle patternChanged with
  | ok d' => exact .inl ⟨d', rfl, rfl⟩
  | error problems => exact .inr ⟨problems, _, rfl, noted_records s _, rfl⟩

/-- The key is that of a stored rule. -/
def AsksFor (key : Value) (t : Tables) (row : RuleRow) : Prop :=
  ∃ id, askedKey key = .ok (some id) ∧ Table.rules.get? t id = some row

theorem AsksFor.mem {row : RuleRow} (h : AsksFor key t row) : row ∈ t.rules := by
  obtain ⟨id, -, hfound⟩ := h
  exact List.mem_of_find?_eq_some hfound

/-- A rule that is asked for is one of those there, or there is a failure. -/
theorem outcome_getRule (key : Value) (s : Session) :
    (∃ row, AsksFor key s.tables row ∧ outcome (getRule key) s = (.ok row, s)) ∨
      ∃ e, outcome (getRule key) s = (.error e, s) := by
  unfold getRule
  rw [outcome_bind, outcome_lift]
  cases hkey : askedKey key with
  | error e => exact .inr ⟨e, rfl⟩
  | ok id =>
      rw [andThen_ok, outcome_bind, outcome_current, andThen_ok]
      cases hfound : id.bind (Table.rules.get? s.tables) with
      | none => exact .inr ⟨_, rfl⟩
      | some row =>
          obtain ⟨n, rfl, hrow⟩ := Option.bind_eq_some_iff.mp hfound
          exact .inl ⟨row, ⟨n, hkey, hrow⟩, rfl⟩

/-- A rule is created, unless it cannot be a new one. -/
theorem createRule_cases (c : RuleChange) (s : Session) :
    (Refused (createRule c) s ∧ ∀ row t, ¬NewRule c s.tables row t) ∨
      ∃ row t, NewRule c s.tables row t ∧ Writes (createRule c) s t row := by
  unfold createRule Refused Writes
  rw [outcome_bind]
  rcases outcome_settled (Draft.empty.apply c) none true s with
    ⟨d, hrun, hsettle⟩ | ⟨e, s', hrun, hnoted, hsettle⟩
  · have hrow : ∀ {row t}, NewRule c s.tables row t →
        row = d.toRow (Table.rules.nextId s.tables) := by
      intro row t hnew
      obtain ⟨d', hsettle', rfl⟩ := hnew.settled
      obtain rfl : d = d' := Except.ok.inj (hsettle.symm.trans hsettle')
      rfl
    rw [hrun, andThen_ok, outcome_bind, outcome_current, andThen_ok]
    dsimp only
    rw [outcome_bind, outcome_lift]
    cases hpassed : passed (d.toRow (Table.rules.nextId s.tables)).priority with
    | error e =>
        refine .inl ⟨⟨e, s, rfl, .refl s⟩, fun row t hnew => ?_⟩
        obtain ⟨v, hv⟩ := hnew.passed
        rw [hrow hnew, hpassed] at hv
        cases hv
    | ok priority =>
        rw [andThen_ok, outcome_bind, outcome_lift]
        cases hinsert : Table.rules.insert s.tables (d.toRow (Table.rules.nextId s.tables)) with
        | error e =>
            refine .inl ⟨⟨e, s, rfl, .refl s⟩, fun row t hnew => ?_⟩
            have hinserted := hnew.inserted
            rw [hrow hnew, hinsert] at hinserted
            cases hinserted
        | ok t => exact .inr ⟨_, t, ⟨⟨d, hsettle, rfl⟩, ⟨priority, hpassed⟩, hinsert⟩, _, _, rfl⟩
  · refine .inl ⟨⟨_, s', by rw [hrun, andThen_error], hnoted⟩, fun row t hnew => ?_⟩
    obtain ⟨d, hd, -⟩ := hnew.settled
    rw [hsettle] at hd
    cases hd

/-- The rule that is asked for is changed, or the call is refused. -/
theorem updateRule_cases (key : Value) (c : RuleChange) (s : Session) :
    Refused (updateRule key c) s ∨ ∃ old row, AsksFor key s.tables old ∧ ChangedRule old c row ∧
      Writes (updateRule key c) s (Table.rules.replace s.tables row) row := by
  unfold updateRule Refused Writes
  rw [outcome_bind]
  rcases outcome_getRule key s with ⟨old, hold, hrun⟩ | ⟨e, hrun⟩
  · rw [hrun, andThen_ok]
    dsimp only
    rw [outcome_bind]
    rcases outcome_settled ((Draft.ofRow old).apply c) (some old.id)
      ((Draft.ofRow old).changesPattern c) s with
      ⟨d, hrun, hsettle⟩ | ⟨problems, s', hrun, hnoted, -⟩
    · rw [hrun, andThen_ok, outcome_bind, outcome_lift]
      cases hpassed : passed (d.toRow old.id).priority with
      | error e => exact .inl ⟨e, s, rfl, .refl s⟩
      | ok priority =>
          exact .inr ⟨old, _, hold, ⟨⟨d, hsettle, rfl⟩, ⟨priority, hpassed⟩⟩, _, _, rfl⟩
    · exact .inl ⟨_, s', by rw [hrun, andThen_error], hnoted⟩
  · exact .inl ⟨e, s, by rw [hrun, andThen_error], .refl s⟩

/-- The rule that is asked for is removed, or the call is refused. -/
theorem deleteRule_cases (key : Value) (s : Session) :
    Refused (deleteRule key) s ∨
      ∃ old, AsksFor key s.tables old ∧
        Writes (deleteRule key) s (Table.rules.drop s.tables old.id) () := by
  unfold deleteRule Refused Writes
  rw [outcome_bind]
  rcases outcome_getRule key s with ⟨old, hold, hrun⟩ | ⟨e, hrun⟩
  · rw [hrun, andThen_ok]
    exact .inr ⟨old, hold, _, _, rfl⟩
  · exact .inl ⟨e, s, by rw [hrun, andThen_error], .refl s⟩

/-- The rule that is asked for is made active or inactive, or the call is refused. -/
theorem toggleRule_cases (key isActive : Value) (s : Session) :
    Refused (toggleRule key isActive) s ∨ ∃ old flag shown, AsksFor key s.tables old ∧
      Writes (toggleRule key isActive) s
        (Table.rules.replace s.tables { old with isActive := flag }) shown := by
  unfold toggleRule Refused Writes
  rw [outcome_bind]
  rcases outcome_getRule key s with ⟨old, hold, hrun⟩ | ⟨e, hrun⟩
  · rw [hrun, andThen_ok]
    dsimp only
    rw [outcome_bind, outcome_lift]
    cases flagOf (if isActive.isNull = true then Value.bool !old.isActive else isActive) with
    | error e => exact .inl ⟨e, s, rfl, .refl s⟩
    | ok flag => exact .inr ⟨old, flag.getD old.isActive, _, hold, _, _, rfl⟩
  · exact .inl ⟨e, s, by rw [hrun, andThen_error], .refl s⟩

theorem step_createRule (c : RuleChange) (s : Session) :
    RuleStep s (outcome (createRule c) s).2 := by
  rcases createRule_cases c s with ⟨hrefused, -⟩ | ⟨row, t, hnew, hwrites⟩
  · exact hrefused.step
  · exact hwrites.step (.new c row t hnew)

theorem step_updateRule (key : Value) (c : RuleChange) (s : Session) :
    RuleStep s (outcome (updateRule key c) s).2 := by
  rcases updateRule_cases key c s with hrefused | ⟨old, row, hold, hchanged, hwrites⟩
  · exact hrefused.step
  · exact hwrites.step (.changed c old row hold.mem hchanged)

theorem step_deleteRule (key : Value) (s : Session) :
    RuleStep s (outcome (deleteRule key) s).2 := by
  rcases deleteRule_cases key s with hrefused | ⟨old, hold, hwrites⟩
  · exact hrefused.step
  · exact hwrites.step (.removed old hold.mem)

theorem step_toggleRule (key isActive : Value) (s : Session) :
    RuleStep s (outcome (toggleRule key isActive) s).2 := by
  rcases toggleRule_cases key isActive s with hrefused | ⟨old, flag, shown, hold, hwrites⟩
  · exact hrefused.step
  · exact hwrites.step (.toggled old flag hold.mem)

end single

/-! ### Several rules -/

theorem path_createForMethods (c : RuleChange) (given : List String) (s : Session) :
    RulePath given.length s (outcome (createForMethods c given) s).2 := by
  induction given generalizing s with
  | nil => exact .refl 0 s
  | cons method given ih =>
      have hfirst := step_createRule { c with method := some (some method) } s
      unfold createForMethods
      rw [outcome_bind]
      generalize outcome (createRule { c with method := some (some method) }) s = first at hfirst ⊢
      rcases first with ⟨_ | row, s'⟩
      · exact .single hfirst
      · refine .head hfirst ?_
        have hrest := ih s'
        rw [andThen_ok, outcome_bind]
        generalize outcome (createForMethods c given) s' = others at hrest ⊢
        rcases others with ⟨_ | rows, s''⟩ <;> exact hrest

/-- There are not more methods to create rules for than there are methods. -/
theorem path_createRules (c : RuleChange) (given : List Value) (s : Session) :
    RulePath methods.length s (outcome (createRules c given) s).2 := by
  unfold createRules
  rw [outcome_bind, outcome_lift]
  cases given.mapM RuleText.methodOf with
  | error e => exact .refl _ s
  | ok wanted =>
      rw [andThen_ok]
      dsimp only
      split
      · have hone := step_createRule c s
        rw [outcome_bind]
        generalize outcome (createRule c) s = one at hone ⊢
        rcases one with ⟨_ | row, s'⟩ <;> exact .single hone
      · split
        · exact .refl _ s
        · next hall =>
            refine (path_createForMethods c _ s).mono ?_
            refine ((nodup_distinct wanted).subperm fun method hmethod => ?_).length_le
            have hknown : (Text.distinct wanted).all methods.contains = true := by simpa using hall
            simpa using List.all_eq_true.mp hknown method hmethod

/-! ### Calls -/

/-- A call that changes rules. -/
inductive RuleCall where
  | create (change : RuleChange)
  | createAll (change : RuleChange) (methods : List Value)
  | update (key : Value) (change : RuleChange)
  | delete (key : Value)
  | toggle (key isActive : Value)

/-- The session after a call, accepted or not. -/
def afterRuleCall (call : RuleCall) (s : Session) : Session :=
  match call with
  | .create change => (outcome (createRule change) s).2
  | .createAll change methods => (outcome (createRules change methods) s).2
  | .update key change => (outcome (updateRule key change) s).2
  | .delete key => (outcome (deleteRule key) s).2
  | .toggle key isActive => (outcome (toggleRule key isActive) s).2

/-- A call takes not more steps than there are methods. -/
theorem path_ruleCall (call : RuleCall) (s : Session) :
    RulePath methods.length s (afterRuleCall call s) := by
  cases call with
  | create change => exact .single (step_createRule change s)
  | createAll change methods => exact path_createRules change methods s
  | update key change => exact .single (step_updateRule key change s)
  | delete key => exact .single (step_deleteRule key s)
  | toggle key isActive => exact .single (step_toggleRule key isActive s)

theorem steps_ruleCall (call : RuleCall) (s : Session) : RuleSteps s (afterRuleCall call s) :=
  (path_ruleCall call s).steps

/-! ### Stored rules that calls lead to -/

/-- The stored rules that calls can lead to from none at all, accepted or not, whatever the rest of
the sessions is in which they are made. -/
inductive Reachable : List RuleRow → Prop
  | none : Reachable []
  | call (s : Session) (call : RuleCall) (hs : Reachable s.tables.rules) :
      Reachable (afterRuleCall call s).tables.rules

theorem RuleStep.keeps {Q : List RuleRow → Prop}
    (hwrite : ∀ t t', RuleWrite t t' → Q t.rules → Q t'.rules) {s s' : Session} (h : RuleStep s s')
    (hs : Q s.tables.rules) : Q s'.tables.rules := by
  rcases h with hnoted | ⟨t, hwritten, hnoted⟩
  · rwa [hnoted.tables]
  · have hafter : (afterRules t s).tables = t := by rw [afterRules, outcome_onCache]
    rw [hnoted.tables, hafter]
    exact hwrite s.tables t hwritten hs

/-- What no rules at all meet and every write keeps is met by all stored rules that calls can lead
to. -/
theorem Reachable.induct {Q : List RuleRow → Prop} (hnone : Q [])
    (hwrite : ∀ t t', RuleWrite t t' → Q t.rules → Q t'.rules) {rows : List RuleRow}
    (h : Reachable rows) : Q rows := by
  induction h with
  | none => exact hnone
  | call s call _ ih =>
      have hsteps := steps_ruleCall call s
      generalize afterRuleCall call s = s' at hsteps ⊢
      induction hsteps with
      | refl => exact ih
      | tail _ hlast hbefore => exact hlast.keeps hwrite hbefore

theorem reachable_foldl {s : Session} (hs : s.tables.rules = []) (calls : List RuleCall) :
    Reachable (calls.foldl (fun s call => afterRuleCall call s) s).tables.rules := by
  induction calls using List.reverseRecOn with
  | nil =>
      rw [List.foldl_nil, hs]
      exact .none
  | append_singleton calls call ih =>
      rw [List.foldl_append]
      exact .call _ call ih

end Session
end AccessControl
