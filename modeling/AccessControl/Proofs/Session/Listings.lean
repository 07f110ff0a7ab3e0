import AccessControl.Proofs.Database.Listings
import AccessControl.Proofs.Session.Trials
import Mathlib

/-! # Rules that are found and listed

A new rule is stored under the trimmed name that it is given (`Makes.stored`).  The name that is
asked for is folded with all its letters, and the stored one with those of ASCII, so a rule is found
under its own name, and listed under it, just when the capitals of the name are all in ASCII
(`rules_named_iff`).  A search text stands in a form in which two characters stand for others; the
rules in which it is found are listed, each once and in order (`listRules_searched`), and these are
the rules that hold it if it is plain. -/

namespace AccessControl

open Database

/-! ### New rules -/

theorem Draft.Settles.kept_service {d d' : Draft} {patternChanged : Bool}
    (h : d.Settles patternChanged d') :
    d'.service = d.service := by
  cases h <;> rfl

namespace Session

variable {s s₁ : Session} {t t' : Tables} {c : RuleChange} {row : RuleRow} {service : String}

theorem NewRule.service_eq (h : NewRule c t row t') (hservice : c.service = some (some service)) :
    row.service = Text.strip service := by
  obtain ⟨d, hsettle, rfl⟩ := h.settled
  obtain ⟨hcomplete, hsettles⟩ := Draft.settle_cases hsettle
  obtain ⟨name, hname⟩ := Draft.exists_of_isGiven hcomplete.service
  have hgiven : (Draft.empty.apply c).service = RuleText.trimmed service := by
    rw [Draft.apply, hservice]
    rfl
  rw [hgiven] at hname
  rw [Draft.toRow, hsettles.kept_service, hgiven, hname]
  exact (RuleText.trimmed_eq_some_iff.mp hname).1.symm

theorem NewRule.mem_iff (h : NewRule c t row t') (r : RuleRow) :
    r ∈ t'.rules ↔ r = row ∨ r ∈ t.rules := by
  obtain ⟨-, rfl⟩ := Table.insert_eq_ok _ h.inserted
  exact (Table.place_perm _ row t.rules).mem_iff.trans List.mem_cons

theorem Writes.of_ok {α : Type} {operation : SessionM α} {a b : α} (h : Writes operation s t a)
    (hrun : outcome operation s = (.ok b, s₁)) : b = a ∧ s₁.tables = t := by
  obtain ⟨event, details, heq⟩ := h
  rw [heq, finish, outcome_bind, outcome_onCache] at hrun
  revert hrun
  rcases outcome Cache.bumpVersion s.cache with ⟨e | n, c'⟩
  · intro hrun
    cases hrun
  · intro hrun
    obtain ⟨hreply, rfl⟩ := Prod.ext_iff.mp hrun
    exact ⟨(Except.ok.inj hreply).symm, rfl⟩

theorem newRule_of_createRule (h : outcome (createRule c) s = (.ok row, s₁)) :
    NewRule c s.tables row s₁.tables := by
  rcases createRule_cases c s with ⟨hrefused, -⟩ | ⟨row', t, hnew, hwrites⟩
  · exact absurd h hrefused.not_ok
  · obtain ⟨rfl, htables⟩ := hwrites.of_ok h
    rwa [htables]

/-- Rules that are created for methods are new ones, and none of them goes when the
next ones are created. -/
theorem newRule_of_createForMethods {given : List String} {rows : List RuleRow}
    (h : outcome (createForMethods c given) s = (.ok rows, s₁)) :
    (∀ row ∈ s.tables.rules, row ∈ s₁.tables.rules) ∧
      ∀ row ∈ rows, row ∈ s₁.tables.rules ∧ ∃ method t t',
        NewRule { c with method := some (some method) } t row t' := by
  induction given generalizing s rows with
  | nil =>
      obtain ⟨hrows, rfl⟩ := Prod.ext_iff.mp h
      obtain rfl := Except.ok.inj hrows
      exact ⟨fun row hrow => hrow, fun row hrow => by cases hrow⟩
  | cons method given ih =>
      rw [createForMethods] at h
      obtain ⟨first, s₂, hfirst, h⟩ := outcome_bind_eq_ok h
      obtain ⟨others, s₃, hothers, h⟩ := outcome_bind_eq_ok h
      obtain ⟨hrows, rfl⟩ := Prod.ext_iff.mp h
      obtain rfl := Except.ok.inj hrows
      have hnew := newRule_of_createRule hfirst
      obtain ⟨hkept, hrest⟩ := ih hothers
      refine ⟨fun row hrow => hkept row ((hnew.mem_iff row).mpr (.inr hrow)), fun row hrow => ?_⟩
      rcases List.mem_cons.mp hrow with rfl | hrow
      · exact ⟨hkept row ((hnew.mem_iff row).mpr (.inl rfl)), method, _, _, hnew⟩
      · exact hrest row hrow

/-- A call for new rules under a name has just made a rule. -/
inductive Makes (s : Session) (service : String) : RuleCall → RuleRow → Prop
  | one (c : RuleChange) (row : RuleRow) (hservice : c.service = some (some service))
      (hmade : (outcome (createRule c) s).1 = .ok row) : Makes s service (.create c) row
  | several (c : RuleChange) (given : List Value) (rows : List RuleRow) (row : RuleRow)
      (hservice : c.service = some (some service))
        (hmade : (outcome (createRules c given) s).1 = .ok rows)
      (hrow : row ∈ rows) : Makes s service (.createAll c given) row

/-- A rule that is made is stored under the trimmed name. -/
theorem Makes.stored {call : RuleCall} (h : Makes s service call row) :
    row.service = Text.strip service ∧ row ∈ (s.afterTurn (.rules call)).tables.rules := by
  cases h with
  | one c row hservice hmade =>
      have hnew := newRule_of_createRule (c := c) (s := s) (Prod.ext hmade rfl)
      exact ⟨hnew.service_eq hservice, (hnew.mem_iff row).mpr (.inl rfl)⟩
  | several c given rows row hservice hmade hrow =>
      have hrun :
          outcome (createRules c given) s = (.ok rows, s.afterTurn (.rules (.createAll c given))) :=
        Prod.ext hmade rfl
      rw [createRules] at hrun
      obtain ⟨names, s₂, hnames, hrun⟩ := outcome_bind_eq_ok hrun
      rw [outcome_lift] at hnames
      obtain ⟨-, rfl⟩ := Prod.ext_iff.mp hnames
      dsimp only at hrun
      split at hrun
      · obtain ⟨only, s₃, honly, hrun⟩ := outcome_bind_eq_ok hrun
        obtain ⟨hrows, rfl⟩ := Prod.ext_iff.mp hrun
        obtain rfl := Except.ok.inj hrows
        obtain rfl := List.mem_singleton.mp hrow
        have hnew := newRule_of_createRule honly
        exact ⟨hnew.service_eq hservice, (hnew.mem_iff row).mpr (.inl rfl)⟩
      · split at hrun
        · cases hrun
        · obtain ⟨hmem, method, t, t', hnew⟩ := (newRule_of_createForMethods hrun).2 row hrow
          exact ⟨hnew.service_eq hservice, hmem⟩

/-! ### Rules under their names -/

theorem outcome_listRules {service search : Value} {name term : Option String}
    (hname : givenText service = .ok name) (hterm : searchTerm search = .ok term) (s : Session) :
    outcome (listRules service search) s =
      (.ok (s.tables.listRules (name.map fun s => Text.lower (Text.strip s)) term), s) := by
  unfold listRules
  rw [outcome_bind, outcome_lift, hname, andThen_ok, outcome_bind, outcome_lift, hterm, andThen_ok]
  rfl

/-- A stored rule is listed under its name just when the capitals of the name are all in ASCII. -/
theorem listed_named_iff (hkeyed : Table.rules.Keyed s.tables.rules)
    (hpriorities : ∀ r ∈ s.tables.rules, IsPriority r.priority) (hrow : row ∈ s.tables.rules)
    (hname : row.service = Text.strip service) :
    ∃ rows, outcome (listRules (.text service) .null) s = (.ok rows, s) ∧
      (row ∈ rows ↔ Text.CapitalsInAscii (Text.strip service)) := by
  refine ⟨_, outcome_listRules rfl rfl s, ?_⟩
  rw [(Tables.lists_listRules hkeyed hpriorities _ _).mem_iff, hname,
    ← Text.lower_eq_asciiLower_iff]
  split
  · next hempty =>
      have hfold : Text.lower (Text.strip service) = Text.asciiLower (Text.strip service) := by
        rw [hempty]
        decide
      simp [hrow, hfold]
  · simp [hrow, eq_comm]

/-- Whatever was called, looked up and remembered before: a new rule is stored under the trimmed
name that it is given, and a stored rule is found and listed under its name just when the capitals
of the name are all in ASCII. -/
theorem rules_named_iff {shared : Bool} (s : Session) (turns : List Turn) (service method : String)
    (hs : s.Fresh shared (methods.length * turns.length))
    (hrules : Stocked shared (methods.length * turns.length) s.tables.rules)
    (hD : Digests (LookedUp (turns ++ [.find service method]))) :
    let s' := s.afterTurns turns
    let name := Text.strip service
    (∀ call row, Makes s' service call row → row.service = name ∧
      row ∈ (s'.afterTurn (.rules call)).tables.rules) ∧
    ∀ row ∈ s'.tables.rules, row.service = name →
      (row.isActive = true → (row.method = RuleText.method method ∨ row.method = anyMethod) →
        ∃ rules, (outcome (findActive (.text service) (.text method) .null) s').1 = .ok rules ∧
          ((∃ rule ∈ rules, rule.id = .int row.id) ↔ Text.CapitalsInAscii name)) ∧
      ∃ rows, outcome (listRules (.text service) .null) s' = (.ok rows, s') ∧
        (row ∈ rows ↔ Text.CapitalsInAscii name) := by
  intro s' name
  have hfresh :
      Current (LookedUp (turns ++ [.find service method])) shared
      (0 + methods.length * turns.length)
      (· = s.tables) s fun _ => none := by
    rw [Nat.zero_add]
    exact current_fresh hs hrules
  obtain ⟨-, m, h⟩ :=
    hfresh.turns hD turns rfl fun topic text h => h.mono (List.subset_append_left turns _)
  obtain ⟨rows, rules, hfound, hlists, hrestored⟩ :=
    h.lists hD (stillShown_end (T := (· = s.tables)) rfl turns) service
    method ⟨rfl, service, method, by simp, rfl⟩
  refine ⟨fun call row hmakes => hmakes.stored,
    fun row hrow hname => ⟨fun hactive hmethod => ⟨rules, hfound, ?_⟩, ?_⟩⟩
  · rw [(restored_iff hlists hrestored h.stocked.keyed hrow).1, hlists.mem_iff, hname,
      ← Text.lower_eq_asciiLower_iff]
    exact ⟨fun hlisted => hlisted.2.2.1.symm, fun hfold => ⟨hrow, hactive, hfold.symm, hmethod⟩⟩
  · have hpriorities : ∀ r ∈ s'.tables.rules, IsPriority r.priority := fun r hr =>
      .inl ((h.stocked.sound r hr).priority.imp fun _ => And.left)
    exact listed_named_iff h.stocked.keyed hpriorities hrow hname

/-- A rule for the orders of a service with an accent, which is no capital. -/
def accented : RuleCall := .create { ordersOfStore with service := some (some "Café") }

theorem rules_named_iff_accented :
    let s' := withoutRules.afterTurns [.rules accented]
    ∃ row ∈ s'.tables.rules, row.service = "Café" ∧
      (∃ rules, (outcome (findActive (.text " Café ") (.text "get") .null) s').1 = .ok rules ∧
        ∃ rule ∈ rules, rule.id = .int row.id) ∧
      ∃ rows, outcome (listRules (.text " Café ") .null) s' = (.ok rows, s') ∧ row ∈ rows := by
  intro s'
  have hstored : s'.tables.rules.map (fun row => (row.service, row.isActive, row.method)) =
      [("Café", true, "GET")] := by
    decide +kernel
  obtain ⟨row, hrow, hcolumns⟩ := List.map_eq_singleton_iff.mp hstored
  obtain ⟨hservice, hactive, hmethod⟩ : row.service = "Café" ∧ row.isActive = true ∧
    row.method = "GET" := by
    simpa using hcolumns
  have hstrip : Text.strip " Café " = "Café" := by decide +kernel
  have hcapitals : Text.CapitalsInAscii "Café" :=
    (Text.lower_eq_asciiLower_iff _).mp (by decide +kernel)
  have hword : RuleText.method "get" = "GET" := by decide +kernel
  have hfresh : withoutRules.Fresh false (methods.length * [Turn.rules accented].length) :=
    fresh_memory (s := withoutRules) rfl rfl List.nodup_nil List.nodup_nil _
  have hD : Digests (LookedUp ([.rules accented] ++ [.find " Café " "get"])) := by
    refine digests_of_one (lookupText " Café " "get") fun service method hmem => ?_
    obtain ⟨rfl, rfl⟩ : service = " Café " ∧ method = "get" := by simpa using hmem
    rfl
  have hmem : row ∈ s'.tables.rules := hrow ▸ List.mem_cons_self
  obtain ⟨-, hnamed⟩ :=
    rules_named_iff withoutRules [.rules accented] " Café " "get" hfresh (stocked_nil false _) hD
  rw [hstrip] at hnamed
  obtain ⟨hfind, rows, hlist, hlisted⟩ := hnamed row hmem hservice
  obtain ⟨rules, hfound, hserved⟩ := hfind hactive (.inl (hmethod.trans hword.symm))
  exact ⟨row, hmem, hservice, ⟨rules, hfound, hserved.mpr hcapitals⟩, rows, hlist,
    hlisted.mpr hcapitals⟩

/-- A rule under a name with another capital is stored, but it is neither found nor
listed under this name. -/
theorem unfound_capital :
    let s' :=
  withoutRules.afterTurns [.rules (.create { ordersOfStore with service := some (some "É") })]
    s'.tables.rules.map (fun row => (row.service, row.isActive, row.method)) =
      [("É", true, "GET")] ∧
      (outcome (findActive (.text "É") (.text "GET") .null) s').1.toOption.map (·.map (·.id.int?)) =
        some [] ∧
      (outcome (listRules (.text "É") .null) s').1.toOption.map (·.map (·.id)) = some [] := by
  refine ⟨?_, ?_, ?_⟩ <;> decide +kernel

/-! ### Rules that are searched for -/

/-- A search text that is not blank: the rules in which the trimmed text is found are listed, each
once, by service, by priority from high to low and by number.  If it is plain, these are the rules
that hold it; otherwise it is found in some text that does not hold it. -/
theorem listRules_searched (s : Session) (search : String) (hsearch : Text.strip search ≠ "")
    (hkeyed : Table.rules.Keyed s.tables.rules)
    (hpriorities : ∀ r ∈ s.tables.rules, IsPriority r.priority) :
    let term := Text.strip search
    ∃ rows, outcome (listRules .null (.text search)) s = (.ok rows, s) ∧
      s.tables.Lists (fun row => ∃ text ∈ row.searched, Tables.Finds term text) rows ∧
      (Tables.Plain term →
        (∀ row ∈ s.tables.rules, ∀ text ∈ row.searched, Char.ofNat 0 ∉ text.toList) →
        s.tables.Lists (fun row => ∃ text ∈ row.searched, Tables.Contains term text) rows) ∧
      (¬Tables.Plain term → ∃ text, Tables.Plain text ∧ Tables.Finds term text ∧
        ¬Tables.Contains term text) := by
  intro term
  have hterm : searchTerm (.text search) = .ok (some term) :=
    congrArg _ (RuleText.trimmed_eq_some_iff.mpr ⟨rfl, hsearch⟩)
  have hnone : givenText .null = .ok none := rfl
  have hlists : s.tables.Lists (fun row => ∃ text ∈ row.searched, Tables.Finds term text)
      (s.tables.listRules none (some term)) :=
    (Tables.lists_listRules hkeyed hpriorities none (some term)).congr fun row _ => by simp
  refine ⟨_, outcome_listRules hnone hterm s, hlists,
    fun hplain hnull => hlists.congr fun row hrow => ?_, Tables.exists_finds_of_not_plain⟩
  exact exists_congr fun text => and_congr_right fun htext =>
    hplain.finds_iff (hnull row hrow text htext)

/-- A store with rules of the shop, of which the first is bound to a route with a hyphen. -/
def listedStart : Session :=
  let row := Rule.shopRow "id"
  let rows :=
    [{ row with id := 1, pattern := none, expression := none, routeName := some "orders-list" },
    { row with id := 2, pattern := some "/carts" }, { row with id := 3, priority := .int 9 }]
  { oneStore with tables := { oneStore.tables with rules := rows } }

theorem listRules_searched_orders :
    (outcome (listRules .null (.text " Orders ")) listedStart).1.toOption.map (·.map (·.id)) =
      some [3, 1] ∧
      ∃ rows, outcome (listRules .null (.text " Orders ")) listedStart = (.ok rows, listedStart) ∧
        listedStart.tables.Lists (fun row => ∃ text ∈ row.searched, Tables.Contains "Orders" text)
          rows := by
  refine ⟨by cbv, ?_⟩
  have hstrip : Text.strip " Orders " = "Orders" := by decide +kernel
  have hids : (listedStart.tables.rules.map (·.id)).Nodup := by decide
  have hpriorities : ∀ r ∈ listedStart.tables.rules, IsPriority r.priority := by
    simp [listedStart, Rule.shopRow, IsPriority]
  have hplain : Tables.Plain "Orders" := by simp [Tables.Plain, Tables.IsSpecial]
  have hnull : ∀ row ∈ listedStart.tables.rules, ∀ text ∈ row.searched,
      Char.ofNat 0 ∉ text.toList := by decide +kernel
  obtain ⟨rows, hrun, -, hlists, -⟩ :=
    listRules_searched listedStart " Orders " (by rw [hstrip]; decide) hids hpriorities
  rw [hstrip] at hlists
  exact ⟨rows, hrun, hlists hplain hnull⟩

/-- The underscore stands for the hyphen of a route that does not hold the search text. -/
theorem listed_by_underscore :
    (outcome (listRules .null (.text "orders_list")) listedStart).1.toOption.map (·.map (·.id)) =
      some [1] ∧
      ∀ row ∈ listedStart.tables.rules, ∀ text ∈ row.searched,
        ¬Tables.Contains "orders_list" text :=
  ⟨by cbv, by decide +kernel⟩

end Session
end AccessControl
