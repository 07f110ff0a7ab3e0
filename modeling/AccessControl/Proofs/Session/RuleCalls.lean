import AccessControl.Proofs.Cache.Confined
import AccessControl.Proofs.Rule.WellFormed
import AccessControl.Proofs.Session.Decisions
import Mathlib

/-! # Calls that write all or nothing

Stored rules that calls lead to stand in the order of their numbers (`Reachable.ascending`), so a
new rule is put behind them and is never in the way of another one.  Rules for several methods are
new ones together or not at all (`Fits`), as a draft is as good with one known method as with
another (`Draft.settle_method`).  Hence a call that is refused changes nothing, and one that
succeeds changes the rows that it is about and raises the version of the rule set once for each of
them (`ruleCall_allOrNothing`). -/

namespace AccessControl

open Database

/-! ### Methods of drafts -/

theorem RuleText.method_of_mem : ∀ method ∈ methods, RuleText.method method = method := by
  decide +kernel

namespace Draft

variable {d d' : Draft} {m m' : String} {patternChanged : Bool}

theorem problems_method (hm : m ∈ methods) (hm' : m' ∈ methods) :
    { d with method := some m }.problems = { d with method := some m' }.problems := by
  have hword : ∀ {word}, word ∈ methods → wordProblem "method" methods (some word) = [] :=
    fun hmem =>
    if_pos (List.contains_iff_mem.mpr hmem)
  unfold problems columnProblems
  dsimp only
  rw [hword hm, hword hm']
  rfl

/-- A draft is settled with one known method as with another. -/
theorem settle_method (hm : m ∈ methods) (hm' : m' ∈ methods)
    (h : { d with method := some m }.settle patternChanged = .ok d') :
    { d with method := some m' }.settle patternChanged = .ok { d' with method := some m' } := by
  unfold settle at h ⊢
  rw [← problems_method hm hm']
  split at h
  · cases h
  · next hnone =>
      rw [if_neg hnone]
      split at h
      · next hroute =>
          obtain rfl := Except.ok.inj h
          rw [if_pos hroute]
      · next hroute =>
          rw [if_neg hroute]
          split at h
          · next hrenewed =>
              obtain rfl := Except.ok.inj h
              rw [if_pos hrenewed]
              rfl
          · next hkept =>
              obtain rfl := Except.ok.inj h
              rw [if_neg hkept]

end Draft

namespace Session

open Cache

variable {c : RuleChange} {t t' : Tables} {row : RuleRow} {m m' : String}

/-! ### New rules -/

theorem insert_last (ht : Table.rules.Ascending t.rules) (hid : row.id = Table.rules.nextId t) :
    Table.rules.insert t row = .ok { t with rules := t.rules ++ [row] } :=
  Table.Ascending.insert_next ht hid (fun _ _ => rfl) rfl

theorem NewRule.tables_eq (h : NewRule c t row t') (ht : Table.rules.Ascending t.rules) :
    t' = { t with rules := t.rules ++ [row] } :=
  Except.ok.inj (h.inserted.symm.trans (insert_last ht h.id_eq))

/-- What is written keeps the rules in the order of their numbers. -/
theorem RuleWrite.ascending (h : RuleWrite t t') (ht : Table.rules.Ascending t.rules) :
    Table.rules.Ascending t'.rules := by
  cases h with
  | new c row t' hnew =>
      rw [hnew.tables_eq ht]
      exact ht.concat fun r hr => (ht.lt_nextId r hr).trans_eq hnew.id_eq.symm
  | changed c old row hold hchanged => exact ht.swapIn row
  | removed old hold => exact ht.filter _
  | toggled old flag hold => exact ht.swapIn _

theorem RuleStep.ascending {s s' : Session} (h : RuleStep s s')
    (hs : Table.rules.Ascending s.tables.rules) :
    Table.rules.Ascending s'.tables.rules :=
  h.keeps (Q := fun rows => Table.rules.Ascending rows) (fun _ _ hwrite ht => hwrite.ascending ht)
    hs

theorem Reachable.ascending {rows : List RuleRow} (h : Reachable rows) :
    Table.rules.Ascending rows :=
  h.induct .nil fun _ _ hwrite ht => hwrite.ascending ht

/-- The change makes a rule, when it comes with a method that is known. -/
def Fits (c : RuleChange) : Prop :=
  ∃ d, { Draft.empty.apply c with method := some anyMethod }.settle true = .ok d ∧
    ∃ v, passed (d.priority.getD (.int 0)) = .ok v

theorem apply_method (c : RuleChange) (hm : m ∈ methods) :
    Draft.empty.apply { c with method := some (some m) } =
    { Draft.empty.apply c with method := some m } := by
  have hmethod := RuleText.method_of_mem m hm
  simp [Draft.apply, hmethod]

theorem fits_of_newRule (hm : m ∈ methods)
    (h : NewRule { c with method := some (some m) } t row t') : Fits c := by
  obtain ⟨d, hsettle, rfl⟩ := h.settled
  rw [apply_method c hm] at hsettle
  exact ⟨_, Draft.settle_method hm (by decide) hsettle, h.passed⟩

theorem Fits.newRule (h : Fits c) (hm : m ∈ methods) (ht : Table.rules.Ascending t.rules) :
    ∃ row, row.method = m ∧
      NewRule { c with method := some (some m) } t row { t with rules := t.rules ++ [row] } := by
  obtain ⟨d, hsettle, hpassed⟩ := h
  have hsettle' := Draft.settle_method (by decide) hm hsettle
  rw [← apply_method c hm] at hsettle'
  exact ⟨_, rfl, ⟨_, hsettle', rfl⟩, hpassed, insert_last ht rfl⟩

/-! ### Versions -/

section raised

variable {shared : Bool} {left k l : ℕ} {s s₁ s₂ : Session} {v v₁ v₂ : View} {α : Type}
  {operation : SessionM α} {a : α}

theorem counting_shown {cache : Cache} (h : Counting shared left cache v) {n : ℤ}
    (hn : v (Key.version.text cache.space) = some (.int n, none)) :
    (outcome rulesetVersion cache).1 = .ok n := by
  obtain ⟨n', hstands, hversion, -⟩ := h.read
  rcases hstands with hn' | ⟨hnone, -⟩
  · obtain rfl : n = n' := by simpa [hn] using hn'
    exact hversion
  · rw [hnone] at hn
    cases hn

/-- The version of the rule set is raised by so many, and nothing else changes in
what the cache shows. -/
structure Raised (shared : Bool) (left k : ℕ) (s : Session) (v : View) (s₁ : Session) (v₁ : View) :
    Prop where
  space : s₁.cache.space = s.cache.space
  counting : Counting shared left s₁.cache v₁
  version : ∃ n, (outcome rulesetVersion s.cache).1 = .ok n ∧
    v₁ = v.set (Key.version.text s.cache.space) (.int (n + k)) none

theorem Raised.exists_version (h : Raised shared left k s v s₁ v₁) :
    ∃ n, (outcome rulesetVersion s.cache).1 = .ok n ∧
      (outcome rulesetVersion s₁.cache).1 = .ok (n + k) := by
  obtain ⟨n, hn, rfl⟩ := h.version
  refine ⟨n, hn, counting_shown h.counting ?_⟩
  rw [h.space, View.set_same]

theorem Raised.trans {left₁ : ℕ} (h : Raised shared left₁ k s v s₁ v₁)
    (h' : Raised shared left l s₁ v₁ s₂ v₂) :
    Raised shared left (k + l) s v s₂ v₂ where
  space := h'.space.trans h.space
  counting := h'.counting
  version := by
    obtain ⟨n, hn, rfl⟩ := h.version
    obtain ⟨n₁, hn₁, rfl⟩ := h'.version
    have hshown := counting_shown h.counting (n := n + k) (by rw [h.space, View.set_same])
    obtain rfl : n₁ = n + k := Except.ok.inj (hn₁.symm.trans hshown)
    refine ⟨n, hn, ?_⟩
    rw [h.space, View.set_set]
    push_cast
    rw [add_assoc]

theorem Writes.not_ofRules (h : Writes operation s t a) {e : Failure}
    (he : (outcome operation s).1 = .error e) :
    ¬e.OfRules := by
  obtain ⟨event, details, hrun⟩ := h
  rw [hrun, finish, outcome_bind, outcome_onCache] at he
  refine confined_bumpVersion.failure s.cache e ?_
  revert he
  rcases outcome bumpVersion s.cache with ⟨e' | n, c'⟩
  · intro he
    obtain rfl : e' = e := Except.error.inj he
    rfl
  · intro he
    cases he

theorem Writes.raised (h : Writes operation s t a)
    (hcounting : Counting shared (left + 1) s.cache v) :
    ∃ s₁ v₁, outcome operation s = (.ok a, s₁) ∧ s₁.tables = t ∧
      Raised shared left 1 s v s₁ v₁ := by
  obtain ⟨event, details, hrun⟩ := h
  obtain ⟨n, hstands, hversion, c', hbump, hsteady, hrep⟩ := hcounting.bump
  have hroom := hcounting.room hstands
  rw [finish, outcome_bind, outcome_onCache, hbump, andThen_ok, noteRule] at hrun
  refine ⟨_, _, hrun, rfl, hsteady.space, ⟨hrep, fun n hn => ?_, fun p hp => ?_⟩, n, hversion, rfl⟩
  · exact (hcounting.seeds n (hsteady.isSeed hn)).fewer
  · change v.set (Key.version.text s.cache.space) _ _ (Key.version.text c'.space) = some p at hp
    rw [hsteady.space, View.set_same] at hp
    exact ⟨n + 1, (Option.some.inj hp).symm, hroom.next⟩

end raised

/-! ### Rules for several methods -/

section several

variable {shared : Bool} {left : ℕ} {s : Session} {v : View} {first : String} {others : List String}

theorem Fits.writes (h : Fits c) (hm : m ∈ methods) (hs : Table.rules.Ascending s.tables.rules) :
    ∃ row, row.method = m ∧ Writes (createRule { c with method := some (some m) }) s
      { s.tables with rules := s.tables.rules ++ [row] } row := by
  obtain ⟨row, hmethod, hnew⟩ := h.newRule hm hs
  rcases createRule_cases { c with method := some (some m) } s with
    ⟨-, hnone⟩ | ⟨row', t, hnew', hwrites⟩
  · exact absurd hnew (hnone _ _)
  · obtain rfl : row' = row := by
      obtain ⟨d, hsettle, rfl⟩ := hnew.settled
      obtain ⟨d', hsettle', rfl⟩ := hnew'.settled
      rw [Except.ok.inj (hsettle.symm.trans hsettle')]
    rw [hnew'.tables_eq hs] at hwrites
    exact ⟨row', hmethod, hwrites⟩

theorem refused_createForMethods (h : ¬Fits c) (hm : first ∈ methods) :
    Refused (createForMethods c (first :: others)) s := by
  rcases createRule_cases { c with method := some (some first) } s with
    ⟨⟨e, s', hrun, hnoted⟩, -⟩ | ⟨row, t, hnew, -⟩
  · refine ⟨e, s', ?_, hnoted⟩
    rw [createForMethods, outcome_bind, hrun, andThen_error]
  · exact absurd (fits_of_newRule hm hnew) h

/-- If a change fits, no rule is refused for it. -/
theorem Fits.not_ofRules (h : Fits c) {given : List String}
    (hgiven : ∀ name ∈ given, name ∈ methods) (hs : Table.rules.Ascending s.tables.rules)
    {e : Failure} (he : (outcome (createForMethods c given) s).1 = .error e) :
    ¬e.OfRules := by
  induction given generalizing s with
  | nil => cases he
  | cons first others ih =>
      -- Every rule is written, so only the cache can make a call fail; the rules stay in order for
      -- those that follow.
      obtain ⟨row, -, hwrites⟩ := h.writes (hgiven first List.mem_cons_self) hs
      rw [createForMethods, outcome_bind] at he
      have hstep := step_createRule { c with method := some (some first) } s
      rcases hrun : outcome (createRule { c with method := some (some first) }) s with
        ⟨e' | row', s₁⟩
      · rw [hrun] at he
        obtain rfl : e' = e := Except.error.inj he
        exact hwrites.not_ofRules (by rw [hrun])
      · rw [hrun, andThen_ok, outcome_bind] at he
        rw [hrun] at hstep
        rcases hrest : outcome (createForMethods c others) s₁ with ⟨e' | rows, s₂⟩
        · rw [hrest] at he
          obtain rfl : e' = e := Except.error.inj he
          refine ih (s := s₁) (fun name hname => hgiven name (List.mem_cons_of_mem first hname))
            (hstep.ascending hs) ?_
          rw [hrest]
        · rw [hrest] at he
          cases he

/-- With a cache that answers, a change that fits makes a rule for each method, and each of
them raises the version. -/
theorem Fits.raised (h : Fits c) (hgiven : ∀ name ∈ first :: others, name ∈ methods)
    (hs : Table.rules.Ascending s.tables.rules)
    (hcounting : Counting shared (left + (others.length + 1)) s.cache v) :
    ∃ rows s₁ v₁, outcome (createForMethods c (first :: others)) s = (.ok rows, s₁) ∧
      s₁.tables = { s.tables with rules := s.tables.rules ++ rows } ∧
        rows.map (·.method) = first :: others ∧
      Raised shared left rows.length s v s₁ v₁ := by
  induction others generalizing first s v with
  | nil =>
      obtain ⟨row, hmethod, hwrites⟩ := h.writes (hgiven first List.mem_cons_self) hs
      obtain ⟨s₁, v₁, hrun, htables, hraised⟩ := hwrites.raised hcounting
      refine ⟨[row], s₁, v₁, ?_, htables, by rw [List.map_singleton, hmethod], hraised⟩
      rw [createForMethods, outcome_bind, hrun]
      rfl
  | cons second others ih =>
      -- The first rule takes one of the steps that the counter has left, and the others take the
      -- rest.
      obtain ⟨row, hmethod, hwrites⟩ := h.writes (hgiven first List.mem_cons_self) hs
      rw [List.length_cons, ← Nat.add_assoc] at hcounting
      obtain ⟨s₁, v₁, hrun, htables, hraised⟩ := hwrites.raised hcounting
      have hs₁ := (step_createRule { c with method := some (some first) } s).ascending hs
      rw [hrun] at hs₁
      obtain ⟨rows, s₂, v₂, hrun', htables', hmethods, hraised'⟩ :=
        ih (fun name hname => hgiven name (List.mem_cons_of_mem first hname)) hs₁ hraised.counting
      refine ⟨row :: rows, s₂, v₂, ?_, ?_, by rw [List.map_cons, hmethod, hmethods], ?_⟩
      · rw [createForMethods, outcome_bind, hrun, andThen_ok, outcome_bind, hrun']
        rfl
      · rw [htables', htables]
        simp
      · rw [List.length_cons, Nat.add_comm]
        exact hraised.trans hraised'

end several

/-! ### Replies -/

/-- What a call gives back: a rule, several of them, nothing, or a rule as it is shown. -/
inductive Reply where
  | row (row : RuleRow)
  | rows (rows : List RuleRow)
  | done
  | shown (fields : Fields)

/-- The operation that a call asks for. -/
def RuleCall.reply : RuleCall → SessionM Reply
  | .create change => .row <$> createRule change
  | .createAll change methods => .rows <$> createRules change methods
  | .update key change => .row <$> updateRule key change
  | .delete key => (fun _ => .done) <$> deleteRule key
  | .toggle key isActive => .shown <$> toggleRule key isActive

theorem outcome_reply (call : RuleCall) (s : Session) :
    (outcome call.reply s).2 = afterRuleCall call s := by
  have hmap : ∀ {α : Type} (f : α → Reply) (operation : SessionM α),
      (outcome (f <$> operation) s).2 = (outcome operation s).2 := by
    intro α f operation
    rw [outcome_map]
    rcases outcome operation s with ⟨_ | a, s'⟩ <;> rfl
  cases call <;> exact hmap _ _

/-- What a call that succeeds does to the rules: how many it writes, those that it takes out,
and those that come in their place.  Rules for several methods come in the order in which the
methods are first given. -/
inductive Wrote (t : Tables) : RuleCall → Reply → ℕ → List RuleRow → List RuleRow → Prop
  | create (change : RuleChange) (row : RuleRow) : Wrote t (.create change) (.row row) 1 [] [row]
  | createAll (change : RuleChange) (given : List Value) (names : List String) (rows : List RuleRow)
      (hgiven : given.mapM RuleText.methodOf = .ok names) (hsome : given ≠ [])
      (hmethods : rows.map (·.method) = names.eraseDups) :
      Wrote t (.createAll change given) (.rows rows) names.eraseDups.length [] rows
  | createOwn (change : RuleChange) (row : RuleRow) :
      Wrote t (.createAll change []) (.rows [row]) 1 [] [row]
  | update (key : Value) (change : RuleChange) (old row : RuleRow) (hkey : AsksFor key t old)
      (hid : row.id = old.id) :
      Wrote t (.update key change) (.row row) 1 [old] [row]
  | delete (key : Value) (old : RuleRow) (hkey : AsksFor key t old) :
      Wrote t (.delete key) .done 1 [old] []
  | toggle (key isActive : Value) (old : RuleRow) (flag : Bool) (fields : Fields)
      (hkey : AsksFor key t old) :
      Wrote t (.toggle key isActive) (.shown fields) 1 [old] [{ old with isActive := flag }]

section replies

variable {s : Session} {α β : Type} {operation : SessionM α}

theorem Refused.map (h : Refused operation s) (f : α → β) : Refused (f <$> operation) s := by
  obtain ⟨e, s', hrun, hnoted⟩ := h
  exact ⟨e, s', by rw [outcome_map, hrun, andThen_error], hnoted⟩

theorem Writes.map {a : α} (h : Writes operation s t a) (f : α → β) :
    Writes (f <$> operation) s t (f a) := by
  obtain ⟨event, details, hrun⟩ := h
  refine ⟨event, details, ?_⟩
  rw [outcome_map, hrun, finish, finish, outcome_bind, outcome_bind, outcome_onCache]
  rcases outcome bumpVersion s.cache with ⟨_ | n, c'⟩ <;> rfl

/-- A call about one rule is refused, or writes that rule. -/
def ActsOnce (call : RuleCall) (s : Session) : Prop :=
  Refused call.reply s ∨ ∃ reply before old new after, Wrote s.tables call reply 1 old new ∧
    s.tables.rules = before ++ old ++ after ∧
    Writes call.reply s { s.tables with rules := before ++ new ++ after } reply

theorem actsOnce_new {c : RuleChange} {call : RuleCall} {f : RuleRow → Reply}
    (hcall : outcome call.reply s = outcome (f <$> createRule c) s)
    (hwrote : ∀ row, Wrote s.tables call (f row) 1 [] [row])
    (hs : Table.rules.Ascending s.tables.rules) : ActsOnce call s := by
  unfold ActsOnce Refused Writes
  rw [hcall]
  rcases createRule_cases c s with ⟨hrefused, -⟩ | ⟨row, t, hnew, hwrites⟩
  · exact .inl (hrefused.map _)
  · rw [hnew.tables_eq hs] at hwrites
    refine .inr ⟨f row, s.tables.rules, [], [row], [], hwrote row, by simp, ?_⟩
    rw [List.append_nil]
    exact hwrites.map f

theorem exists_place (ht : Table.rules.Ascending t.rules) {old : RuleRow} (hold : old ∈ t.rules) :
    ∃ before after, t.rules = before ++ [old] ++ after ∧
      (∀ new : RuleRow, new.id = old.id →
        Table.rules.replace t new = { t with rules := before ++ [new] ++ after }) ∧
      Table.rules.drop t old.id = { t with rules := before ++ [] ++ after } := by
  obtain ⟨before, after, hrules, hreplaced, hremoved⟩ := ht.keyed.exists_split hold
  have htables : ∀ {rows rows' : List RuleRow}, rows = rows' →
      ({ t with rules := rows } : Tables) = { t with rules := rows' } := congrArg _
  refine ⟨before, after, by rw [hrules, List.append_cons], fun new hid => htables ?_, htables ?_⟩
  · rw [← List.append_cons]
    exact hreplaced new hid
  · rw [List.append_nil]
    exact hremoved

/-- A call about one rule writes it in its place. -/
theorem actsOnce (call : RuleCall)
    (hcall : ∀ change given, call = .createAll change given → given = [])
    (hs : Table.rules.Ascending s.tables.rules) : ActsOnce call s := by
  cases call with
  | create change => exact actsOnce_new rfl (.create change) hs
  | createAll change given =>
      obtain rfl := hcall change given rfl
      refine actsOnce_new (c := change) (f := fun row => .rows [row]) ?_ (.createOwn change) hs
      rw [RuleCall.reply, createRules, outcome_map, outcome_map, outcome_bind, List.mapM_nil]
      change andThen (outcome (do return [← createRule change]) s) _ = _
      rw [outcome_bind]
      rcases outcome (createRule change) s with ⟨_ | row, s'⟩ <;> rfl
  | update key change =>
      rcases updateRule_cases key change s with hrefused | ⟨old, row, hkey, hchanged, hwrites⟩
      · exact .inl (hrefused.map _)
      · obtain ⟨before, after, hrules, hreplaced, -⟩ := exists_place hs hkey.mem
        rw [hreplaced row hchanged.id_eq] at hwrites
        exact .inr ⟨_, before, _, _, after, .update key change old row hkey hchanged.id_eq, hrules,
          hwrites.map _⟩
  | delete key =>
      rcases deleteRule_cases key s with hrefused | ⟨old, hkey, hwrites⟩
      · exact .inl (hrefused.map _)
      · obtain ⟨before, after, hrules, -, hremoved⟩ := exists_place hs hkey.mem
        rw [hremoved] at hwrites
        exact .inr ⟨_, before, _, _, after, .delete key old hkey, hrules, hwrites.map _⟩
  | toggle key isActive =>
      rcases toggleRule_cases key isActive s with hrefused | ⟨old, flag, shown, hkey, hwrites⟩
      · exact .inl (hrefused.map _)
      · obtain ⟨before, after, hrules, hreplaced, -⟩ := exists_place hs hkey.mem
        rw [hreplaced { old with isActive := flag } rfl] at hwrites
        exact .inr ⟨_, before, _, _, after, .toggle key isActive old flag shown hkey, hrules,
          hwrites.map _⟩

/-- A call for several methods is refused, or makes a rule for each of them. -/
theorem createRules_cases (change : RuleChange) {given : List Value} (hsome : given ≠ [])
    (s : Session) :
    Refused (createRules change given) s ∨
      ∃ names first others, given.mapM RuleText.methodOf = .ok names ∧
      names.eraseDups = first :: others ∧ (∀ name ∈ first :: others, name ∈ methods) ∧ Fits change ∧
      outcome (createRules change given) s =
        outcome (createForMethods change (first :: others)) s := by
  have hrun : ∀ names, given.mapM RuleText.methodOf = .ok names →
      outcome (createRules change given) s =
      outcome (if names.eraseDups.isEmpty then do return [← createRule change]
        else if !names.eraseDups.all methods.contains then
          throw (.rule [Draft.oneOf "method" methods])
        else createForMethods change names.eraseDups) s := by
    intro names hgiven
    rw [createRules, outcome_bind, outcome_lift, hgiven, andThen_ok, distinct_eq_eraseDups]
  cases hgiven : given.mapM RuleText.methodOf with
  | error e =>
      refine .inl ⟨e, s, ?_, .refl s⟩
      rw [createRules, outcome_bind, outcome_lift, hgiven, andThen_error]
  | ok names =>
      obtain ⟨first, others, hnames⟩ : ∃ first others, names.eraseDups = first :: others := by
        obtain ⟨v, vs, rfl⟩ := List.exists_cons_of_ne_nil hsome
        rw [List.mapM_cons] at hgiven
        obtain ⟨name, -, hrest⟩ := bind_eq_ok hgiven
        obtain ⟨rest, -, hcons⟩ := bind_eq_ok hrest
        obtain rfl := Except.ok.inj hcons
        exact ⟨_, _, List.eraseDups_cons⟩
      specialize hrun names hgiven
      rw [hnames, List.isEmpty_cons, if_neg Bool.false_ne_true] at hrun
      split at hrun
      · exact .inl ⟨_, s, hrun, .refl s⟩
      · next hknown =>
          have hknown : ∀ name ∈ first :: others, name ∈ methods := by simpa using hknown
          by_cases hfits : Fits change
          · exact .inr ⟨names, first, others, rfl, hnames, hknown, hfits, hrun⟩
          · have hnone : Refused (createForMethods change (first :: others)) s :=
              refused_createForMethods hfits (hknown first List.mem_cons_self)
            obtain ⟨e, s', hrefused, hnoted⟩ := hnone
            exact .inl ⟨e, s', hrun.trans hrefused, hnoted⟩

/-! ### All or nothing -/

theorem Refused.unchanged (h : Refused operation s) {e : Failure} {s' : Session}
    (hrun : outcome operation s = (.error e, s')) : s'.tables = s.tables ∧ s'.cache = s.cache := by
  obtain ⟨e', s'', hrun', hnoted⟩ := h
  obtain ⟨-, rfl⟩ := Prod.ext_iff.mp (hrun.symm.trans hrun')
  exact ⟨hnoted.tables, hnoted.cache⟩

theorem Refused.not_ok (h : Refused operation s) {a : α} {s' : Session} :
    outcome operation s ≠ (.ok a, s') := by
  obtain ⟨e, s'', hrun, -⟩ := h
  rw [hrun]
  simp

theorem acts (call : RuleCall) (hs : Table.rules.Ascending s.tables.rules) : ActsOnce call s ∨
    ∃ change given names first others, call = .createAll change given ∧ given ≠ [] ∧
      given.mapM RuleText.methodOf = .ok names ∧ names.eraseDups = first :: others ∧
      (∀ name ∈ first :: others, name ∈ methods) ∧ Fits change ∧
      outcome call.reply s =
        outcome (Reply.rows <$> createForMethods change (first :: others)) s := by
  by_cases hsome : ∃ change given, call = .createAll change given ∧ given ≠ []
  · obtain ⟨change, given, rfl, hsome⟩ := hsome
    rcases createRules_cases change hsome s with
      hrefused | ⟨names, first, others, hgiven, hnames, hknown, hfits, hrun⟩
    · exact .inl (.inl (hrefused.map _))
    · refine .inr ⟨change, given, names, first, others, rfl, hsome, hgiven, hnames, hknown, hfits,
        ?_⟩
      rw [RuleCall.reply, outcome_map, outcome_map, hrun]
  · exact .inl (actsOnce call (fun change given hcall => by_contra fun hne =>
      hsome ⟨change, given, hcall, hne⟩) hs)

/-- A call that fails because of rules changes nothing, whatever becomes of the cache. -/
theorem unchanged_of_ofRules (hs : Table.rules.Ascending s.tables.rules) {call : RuleCall}
    {e : Failure} {s' : Session} (hrun : outcome call.reply s = (.error e, s')) (he : e.OfRules) :
    s'.tables = s.tables ∧ s'.cache = s.cache := by
  rcases acts call hs with (hrefused | ⟨reply, before, old, new, after, -, -, hwrites⟩) |
    ⟨change, given, names, first, others, rfl, -, -, -, hknown, hfits, hreply⟩
  · exact hrefused.unchanged hrun
  · exact absurd he (hwrites.not_ofRules (by rw [hrun]))
  · rw [hreply, outcome_map] at hrun
    rcases hforMethods : outcome (createForMethods change (first :: others)) s with ⟨e' | rows, s₁⟩
    · rw [hforMethods] at hrun
      obtain rfl : e' = e := Except.error.inj (congrArg Prod.fst hrun)
      exact absurd he (hfits.not_ofRules hknown hs (by rw [hforMethods]))
    · rw [hforMethods] at hrun
      cases hrun

theorem tables_of_run (call : RuleCall) {e : Failure} (h : (run call.reply s).1 = .error e) :
    (run call.reply s).2.tables = s.saved := by
  have hsaved : (outcome call.reply s).2.saved = s.saved := by
    rw [outcome_reply]
    exact (path_ruleCall call s).onlyRules.saved
  unfold run at h ⊢
  rw [show (ExceptT.run call.reply).run s = outcome call.reply s from rfl] at h ⊢
  rcases hrun : outcome call.reply s with ⟨e' | a, s'⟩
  · rwa [hrun] at hsaved
  · rw [hrun] at h
    cases h

/-- With a cache that answers, a call fails and changes nothing, or the version is raised once for
each rule that is written. -/
theorem counted {shared : Bool} {v : View} (hs : Table.rules.Ascending s.tables.rules)
    (hcounting : Counting shared methods.length s.cache v) (call : RuleCall) :
    Refused call.reply s ∨
    ∃ reply s' v' k before old new after, outcome call.reply s = (.ok reply, s') ∧
      Wrote s.tables call reply k old new ∧ s.tables.rules = before ++ old ++ after ∧
      s'.tables = { s.tables with rules := before ++ new ++ after } ∧
      Raised shared 0 k s v s' v' := by
  rcases acts call hs with (hrefused | ⟨reply, before, old, new, after, hwrote, hrules, hwrites⟩) |
    ⟨change, given, names, first, others, rfl, hsome, hgiven, hnames, hknown, hfits, hreply⟩
  · exact .inl hrefused
  · have hone : Counting shared (0 + 1) s.cache v := hcounting.mono (by decide)
    obtain ⟨s', v', hrun, htables, hraised⟩ := hwrites.raised hone
    exact .inr ⟨reply, s', v', 1, before, old, new, after, hrun, hwrote, hrules, htables, hraised⟩
  · have hroom : 0 + (others.length + 1) ≤ methods.length := by
      have hnodup : (first :: others).Nodup := by
        rw [← hnames, ← distinct_eq_eraseDups]
        exact nodup_distinct names
      rw [Nat.zero_add]
      exact (hnodup.subperm hknown).length_le
    obtain ⟨rows, s', v', hrun, htables, hmethods, hraised⟩ :=
      hfits.raised hknown hs (hcounting.mono hroom)
    have hlength : rows.length = names.eraseDups.length := by
      rw [hnames, ← hmethods, List.length_map]
    rw [hlength] at hraised
    refine .inr ⟨.rows rows, s', v', _, s.tables.rules, [], rows, [], ?_,
      .createAll change given names rows hgiven hsome (hmethods.trans hnames.symm), by
      simp, ?_, hraised⟩
    · rw [hreply, outcome_map, hrun, andThen_ok]
    · rw [htables, List.append_nil]

end replies

/-- Whatever rules calls have led to, a call that fails because of rules changes neither a table nor
the cache, and as a unit no failing call changes a table.  With a cache that answers, no failing
call changes anything, and one that succeeds raises the version of the rule set by the number of
rules that it writes, while all other rows stay as they are. -/
theorem ruleCall_allOrNothing (s : Session) (hs : Reachable s.tables.rules) (call : RuleCall) :
    (∀ e s', outcome call.reply s = (.error e, s') → e.OfRules → s'.tables = s.tables ∧
      s'.cache = s.cache) ∧
    (∀ e, (run call.reply s).1 = .error e → (run call.reply s).2.tables = s.saved) ∧
    ∀ shared v, Counting shared methods.length s.cache v →
      (∀ e s', outcome call.reply s = (.error e, s') → s'.tables = s.tables ∧ s'.cache = s.cache) ∧
      ∀ reply s', outcome call.reply s = (.ok reply, s') → ∃ k before old new after n,
        Wrote s.tables call reply k old new ∧ s.tables.rules = before ++ old ++ after ∧
        s'.tables = { s.tables with rules := before ++ new ++ after } ∧
        (outcome rulesetVersion s.cache).1 = .ok n ∧
          (outcome rulesetVersion s'.cache).1 = .ok (n + k) := by
  refine ⟨fun e s' hrun he => unchanged_of_ofRules hs.ascending hrun he,
    fun e => tables_of_run call, fun shared v hcounting => ?_⟩
  rcases counted hs.ascending hcounting call with hrefused |
    ⟨reply, s₁, v', k, before, old, new, after, hdone, hwrote, hrules, htables, hraised⟩
  · exact ⟨fun e s' hrun => hrefused.unchanged hrun,
      fun reply s' hrun => absurd hrun hrefused.not_ok⟩
  · refine ⟨fun e s' hrun => by simp [hdone] at hrun, fun reply' s' hrun => ?_⟩
    obtain ⟨rfl, rfl⟩ : reply = reply' ∧ s₁ = s' := by simpa [hdone] using hrun
    obtain ⟨n, hbefore, hafter⟩ := hraised.exists_version
    exact ⟨k, before, old, new, after, n, hwrote, hrules, htables, hbefore, hafter⟩

/-- A session over an empty cache, with a rule that was rebound. -/
def rebound : Session :=
  { withoutRules with
    tables := (rebinding.foldl (fun s call => afterRuleCall call s) withoutRules).tables }

/-- Rules for three methods are asked for, one of them twice. -/
def forMethods : RuleCall :=
  .createAll ordersOfStore [.text "post", .text " Get", .text "POST ", .null]

theorem ruleCall_allOrNothing_forMethods :
    Reachable rebound.tables.rules ∧ Counting false methods.length rebound.cache (fun _ => none) ∧
    (afterRuleCall forMethods rebound).tables.rules.map (fun row => (row.id, row.method)) =
      [(1, "GET"), (2, "POST"), (3, "GET"), (4, "ANY")] ∧
    ∃ reply s', outcome forMethods.reply rebound = (.ok reply, s') ∧ ∃ k before old new after n,
      Wrote rebound.tables forMethods reply k old new ∧
        rebound.tables.rules = before ++ old ++ after ∧
      s'.tables = { rebound.tables with rules := before ++ new ++ after } ∧
      (outcome rulesetVersion rebound.cache).1 = .ok n ∧
        (outcome rulesetVersion s'.cache).1 = .ok (n + k) := by
  have hreachable : Reachable rebound.tables.rules := by
    have hrules : withoutRules.tables.rules = [] := rfl
    unfold rebound
    dsimp only
    exact reachable_foldl hrules rebinding
  have hcounting : Counting false methods.length rebound.cache (fun _ => none) :=
    ⟨⟨rfl, List.nodup_nil, fun _ => rfl⟩, fun n _ => room_memory _ n, fun p hp => by cases hp⟩
  have hdone : (outcome forMethods.reply rebound).1.toOption.isSome = true := by decide +kernel
  refine ⟨hreachable, hcounting, by decide +kernel, ?_⟩
  obtain ⟨-, -, hall⟩ := ruleCall_allOrNothing rebound hreachable forMethods
  obtain ⟨-, hwritten⟩ := hall false _ hcounting
  rcases hrun : outcome forMethods.reply rebound with ⟨e | reply, s'⟩
  · rw [hrun] at hdone
    cases hdone
  · exact ⟨reply, s', rfl, hwritten reply s' hrun⟩

end Session
end AccessControl
