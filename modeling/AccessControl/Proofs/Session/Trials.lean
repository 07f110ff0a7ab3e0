import AccessControl.Proofs.Rule.RoundTrip
import AccessControl.Proofs.Session.Lookups
import AccessControl.Proofs.Session.RuleCalls
import Mathlib

/-! # Tried patterns are enforced as they are shown

A pattern is tried as it is given, but it is stored trimmed, with the text of its expression.
Trimming does not change what a pattern is compiled to (`Path.compile_strip`).  So, for a service
that is not blank, a rule that is given nothing but a pattern is made just when the trial shows the
pattern as compiled (`Session.createRule_boundTo`), and then it `Guards` the paths of the expression
that was tried.  Restored from its snapshot it accepts just these (`RuleRow.Guards.acceptsPath`),
and as long as it is stored it is served under the names of its service (`Session.served_iff`,
`Session.preview_enforced`). -/

namespace AccessControl

open Database

/-! ### Trimmed patterns -/

/-- A trimmed pattern is compiled to what the pattern is compiled to, if it is. -/
theorem Path.compile_strip {text : String} {m : Option Matcher} :
    compile (Text.strip text) = .ok m ↔ compile text = .ok m := by
  rw [compile, compile, Pattern.read, Pattern.read, strip_toList, Text.trim_trim, Text.strip_strip]
  dsimp only
  split_ifs <;> simp

theorem Path.compile_eq_none_iff {text : String} :
    compile text = .ok none ↔ Text.strip text = "" := by
  rw [← String.toList_inj, strip_toList, compile, Pattern.read]
  dsimp only
  split_ifs with hempty <;> simpa using hempty

theorem Path.text_ne_empty (e : Expression) : e.text ≠ "" := by
  intro hempty
  have hnil : e.text.toList = [] := by rw [hempty]; rfl
  simp [Expression.text] at hnil

/-! ### Rules for patterns -/

/-- The change that makes a rule for a service and a pattern, with what stands in for all that
an input does not name. -/
def RuleChange.boundTo (service pattern : String) : RuleChange where
  service := some (some service)
  method := some (some anyMethod)
  pattern := some (some pattern)
  routeName := some none
  rolesAny := some none
  permissionsAny := some none
  permissionsAll := some none
  bypassRoles := some none
  bypassPermissions := some none
  scope := some (some Scope.none.word)
  sources := some none
  matching := some (some Matching.all.word)
  allowsEmpty := some (some false)
  isActive := some (some true)
  priority := some (some RuleForm.defaultPriority)

theorem RuleChange.readCreation_boundTo (service pattern : String) :
    readCreation (.object [("service", .text service), ("path_dsl", .text pattern)]) =
      .ok (boundTo service pattern) := by
  rfl

theorem RuleText.trimmed_eq_some_iff {s t : String} :
    trimmed s = some t ↔ Text.strip s = t ∧ t ≠ "" := by
  unfold trimmed
  dsimp only
  split
  · next hblank => simp +contextual [hblank, eq_comm]
  · next hsome =>
      rw [Option.some.injEq]
      exact ⟨fun heq => ⟨heq, heq ▸ hsome⟩, And.left⟩

/-- The draft of such a rule, in normal form. -/
def Draft.boundTo (service pattern : String) : Draft :=
  { empty with
    service := RuleText.trimmed service, method := some anyMethod, pattern :=
      RuleText.trimmed pattern,
    scope := some Scope.none.word, matching := some Matching.all.word, allowsEmpty :=
      some false, isActive := some true,
    priority := some (.int RuleForm.defaultPriority) }

theorem Draft.service_boundTo (service pattern : String) :
    (boundTo service pattern).service = RuleText.trimmed service := by rw [boundTo]

theorem Draft.pattern_boundTo (service pattern : String) :
    (boundTo service pattern).pattern = RuleText.trimmed pattern := by rw [boundTo]

theorem Draft.apply_boundTo (service pattern : String) :
    empty.apply (.boundTo service pattern) = boundTo service pattern := by
  have hmethod : RuleText.method anyMethod = anyMethod := RuleText.method_of_mem _ (by decide)
  have hscope : RuleText.word Scope.none.word = Scope.none.word := by decide +kernel
  have hmatching : RuleText.word Matching.all.word = Matching.all.word := by decide +kernel
  simp only [apply, RuleChange.boundTo, Option.elim_some, Option.map_some, Option.bind_some,
    Option.getD_some, hmethod, hscope, hmatching]
  rfl

/-- The draft of a rule for a service and a pattern has no problem if the service is not blank and
the pattern is compiled, and is settled with its expression. -/
theorem Draft.settle_boundTo {service pattern : String} (hservice : Text.strip service ≠ "")
    {m : Path.Matcher}
    (hm : Path.compile pattern = .ok (some m)) :
    (boundTo service pattern).settle true =
      .ok { boundTo service pattern with expression := some m.stored } := by
  have hpattern : Text.strip pattern ≠ "" := by
    intro hblank
    rw [Path.compile_eq_none_iff.mpr hblank] at hm
    cases hm
  have hname : RuleText.trimmed service = some (Text.strip service) :=
    RuleText.trimmed_eq_some_iff.mpr ⟨rfl, hservice⟩
  have htext : RuleText.trimmed pattern = some (Text.strip pattern) :=
    RuleText.trimmed_eq_some_iff.mpr ⟨rfl, hpattern⟩
  have hbinding : (boundTo service pattern).binding = .ok (some m.stored) := by
    have hcompiled : Path.compileText (Text.strip pattern) = .ok (some m.stored) := by
      rw [Path.compileText, Path.compile_strip.mpr hm]
      rfl
    have hroute : isGiven (boundTo service pattern).routeName = false := rfl
    have hgiven : isGiven (some (Text.strip pattern)) = true := by simpa [isGiven] using hpattern
    unfold binding
    rw [hroute, if_neg Bool.false_ne_true, pattern_boundTo, htext, hgiven, if_neg (by decide),
      Option.getD_some, hcompiled]
    rfl
  have hproblems : (boundTo service pattern).problems = [] := by
    have hgiven : isGiven (some (Text.strip service)) = true := by simpa [isGiven] using hservice
    unfold problems columnProblems
    rw [hbinding, service_boundTo, hname, if_pos hgiven]
    rfl
  unfold settle
  rw [hproblems, hbinding]
  rfl

/-- A stored rule that is active, for any method, and bound to the paths of an
expression in a service. -/
structure Database.RuleRow.Guards (row : RuleRow) (service : String) (e : Path.Expression) :
    Prop where
  service : row.service = Text.strip service
  method : row.method = anyMethod
  isActive : row.isActive = true
  routeName : row.routeName = none
  expression : row.expression = some e.text

/-- Restored from its snapshot, such a rule accepts the paths of the expression. -/
theorem Database.RuleRow.Guards.acceptsPath {row : RuleRow} {service : String} {e : Path.Expression}
    (h : row.Guards service e) {rule : Rule} (hrule : row.restored = .ok rule) (path : String) :
    rule.acceptsPath (.text path) = .ok (e.accepts path) := by
  obtain ⟨r, hr, hread⟩ := bind_eq_ok hrule
  have reads := RuleRow.reads_of_snapshot hr
  rw [(Rule.settled_of_snapshot hr).read_toValue] at hread
  obtain rfl := Except.ok.inj hread
  have hroute : r.routeName = .null := by
    rw [reads.routeName, h.routeName]
    rfl
  have hexpression : r.expression = .text e.text := by
    rw [reads.expression, h.expression, RuleRow.givenText, Option.filter_some,
      if_pos (by simpa using Path.text_ne_empty e)]
    rfl
  unfold Rule.acceptsPath Rule.hasRoute
  rw [hroute, hexpression]
  exact Path.storedMatches_text e path

namespace Session

variable {service pattern : String} {t t' : Tables} {row : RuleRow}

/-- A new rule for a pattern guards the paths of what the pattern is compiled to. -/
theorem NewRule.guards (h : NewRule (.boundTo service pattern) t row t') :
    ∃ m, Path.compile pattern = .ok (some m) ∧ row.Guards service m.expression := by
  obtain ⟨d, hsettle, rfl⟩ := h.settled
  rw [Draft.apply_boundTo] at hsettle
  obtain ⟨hcomplete, hsettles⟩ := Draft.settle_cases hsettle
  obtain ⟨name, hname⟩ := Draft.exists_of_isGiven hcomplete.service
  rw [Draft.service_boundTo] at hname
  obtain ⟨rfl, -⟩ := RuleText.trimmed_eq_some_iff.mp hname
  cases hsettles with
  | route hroute => cases hroute
  | kept p _ _ hchanged _ => cases hchanged
  | compiled p stored _ hpattern hcompiled =>
      rw [Draft.pattern_boundTo] at hpattern
      obtain ⟨rfl, hsome⟩ := RuleText.trimmed_eq_some_iff.mp hpattern
      cases hm : Path.compile (Text.strip pattern) with
      | error e => simp [Path.compileText, hm] at hcompiled
      | ok given =>
          cases given with
          | none => exact absurd (Path.compile_eq_none_iff.mp (Path.compile_strip.mp hm)) hsome
          | some m =>
              rw [Path.compileText, hm] at hcompiled
              obtain rfl := Except.ok.inj hcompiled
              refine ⟨m, Path.compile_strip.mp hm, ⟨?_, rfl, rfl, rfl, rfl⟩⟩
              rw [Draft.toRow, Draft.service_boundTo, hname, Option.getD_some]

theorem exists_newRule (hservice : Text.strip service ≠ "") {m : Path.Matcher}
    (hm : Path.compile pattern = .ok (some m))
    (ht : Table.rules.Ascending t.rules) :
    ∃ row t', NewRule (.boundTo service pattern) t row t' := by
  have hsettle := Draft.settle_boundTo hservice hm
  rw [← Draft.apply_boundTo] at hsettle
  exact ⟨_, _, ⟨_, hsettle, rfl⟩, ⟨_, rfl⟩, insert_last ht rfl⟩

/-! ### Trials -/

/-- What is shown for a pattern and a path: whether the pattern is compiled, and
whether it accepts the path. -/
def Previews (pattern path : String) (compiled accepts : Bool) : Prop :=
  ∃ fields, tryPattern (.text pattern) (.text path) = .ok fields ∧
    fields.get? "compiled" = some (.bool compiled) ∧ fields.get? "matches" = some (.bool accepts)

theorem previews_cases (pattern : String) :
    (∃ m, Path.compile pattern = .ok (some m) ∧
      ∀ path, Previews pattern path true (m.accepts path)) ∨
      (∀ m, Path.compile pattern ≠ .ok (some m)) ∧ ∀ path, Previews pattern path false false := by
  have hvalue : Path.compileValue (.text pattern) = (Path.compile pattern).mapError fun e =>
      .pattern e.message := rfl
  unfold Previews tryPattern trial
  rw [hvalue]
  rcases Path.compile pattern with e | _ | m
  · exact .inr ⟨fun m => by simp, fun path => ⟨_, rfl, rfl, rfl⟩⟩
  · exact .inr ⟨fun m => by simp, fun path => ⟨_, rfl, rfl, rfl⟩⟩
  · exact .inl ⟨m, rfl, fun path => ⟨_, rfl, rfl, rfl⟩⟩

theorem Previews.unique {path : String} {compiled compiled' accepts accepts' : Bool}
    (h : Previews pattern path compiled accepts) (h' : Previews pattern path compiled' accepts') :
    compiled = compiled' ∧ accepts = accepts' := by
  obtain ⟨fields, hfields, hcompiled, haccepts⟩ := h
  obtain ⟨fields', hfields', hcompiled', haccepts'⟩ := h'
  obtain rfl : fields = fields' := Except.ok.inj (hfields.symm.trans hfields')
  exact ⟨by simpa [hcompiled] using hcompiled', by simpa [haccepts] using haccepts'⟩

/-! ### Rules that are made and looked up -/

variable {shared : Bool} {left : ℕ} {s : Session} {v : Cache.View}

theorem upheld_ascending (shared : Bool) :
    Upheld shared fun left rows => Stocked shared left rows ∧ Table.rules.Ascending rows where
  typed h := h.1.typed
  mono h hle := ⟨h.1.mono hle, h.2⟩
  write h hzero hwrite := ⟨h.1.change hzero hwrite.change, hwrite.ascending h.2⟩

/-- With a cache that answers, a rule for a pattern is made just when the pattern is compiled,
and then it is stored. -/
theorem createRule_boundTo (hservice : Text.strip service ≠ "")
    (hs : Table.rules.Ascending s.tables.rules)
    (hcounting : Counting shared (left + 1) s.cache v) (pattern : String) :
    ((∃ row, (outcome (createRule (.boundTo service pattern)) s).1 = .ok row) ↔
      ∃ m, Path.compile pattern = .ok (some m)) ∧
    ∀ row, (outcome (createRule (.boundTo service pattern)) s).1 = .ok row →
      row ∈ (s.afterTurn (.rules (.create (.boundTo service pattern)))).tables.rules ∧
        ∃ m, Path.compile pattern = .ok (some m) ∧ row.Guards service m.expression := by
  have hafter : s.afterTurn (.rules (.create (.boundTo service pattern))) =
      (outcome (createRule (.boundTo service pattern)) s).2 := by rw [afterTurn, afterRuleCall]
  rw [hafter]
  rcases createRule_cases (.boundTo service pattern) s with
    ⟨⟨e, s', hrun, -⟩, hnone⟩ | ⟨row, t, hnew, hwrites⟩
  · rw [hrun]
    refine ⟨⟨fun ⟨row, hrow⟩ => (by cases hrow), fun ⟨m, hm⟩ => ?_⟩, fun row hrow => by cases hrow⟩
    obtain ⟨row, t, hnew⟩ := exists_newRule hservice hm hs
    exact absurd hnew (hnone row t)
  · obtain ⟨s', v', hrun, htables, -⟩ := hwrites.raised hcounting
    obtain ⟨m, hm, hguards⟩ := hnew.guards
    rw [hrun]
    refine ⟨⟨fun _ => ⟨m, hm⟩, fun _ => ⟨row, rfl⟩⟩, fun row' hrow => ?_⟩
    obtain rfl := Except.ok.inj hrow
    refine ⟨?_, m, hm, hguards⟩
    rw [htables, hnew.tables_eq hs]
    exact List.mem_append_right _ List.mem_cons_self

/-- A stored rule is among those that are looked up if its row is listed, and then it is
restored from this row. -/
theorem restored_iff {service' method' : String} {rows : List RuleRow} {rules : List Rule}
    (hlists : t.ListsActive service' method' rows) (hrules : rows.mapM RuleRow.restored = .ok rules)
    (hkeyed : Table.rules.Keyed t.rules) (hrow : row ∈ t.rules) :
    ((∃ rule ∈ rules, rule.id = .int row.id) ↔ row ∈ rows) ∧
      ∀ rule ∈ rules, rule.id = .int row.id → row.restored = .ok rule := by
  have hown : ∀ rule ∈ rules, rule.id = .int row.id → row ∈ rows ∧ row.restored = .ok rule := by
    intro rule hrule hid
    obtain ⟨other, hother, hrestored⟩ := exists_of_mem_mapM hrules hrule
    have hsame : other.id = row.id := by
      rw [(restored_spec hrestored).1] at hid
      exact Value.int.inj hid
    obtain rfl := hkeyed.eq_of_id ((hlists.mem_iff other).mp hother).1 hrow hsame
    exact ⟨hother, hrestored⟩
  refine ⟨⟨fun ⟨rule, hrule, hid⟩ => (hown rule hrule hid).1, fun hlisted => ?_⟩,
    fun rule hrule hid => (hown rule hrule hid).2⟩
  obtain ⟨rule, hrule, hrestored⟩ := exists_of_mapM hrules hlisted
  exact ⟨rule, hrule, (restored_spec hrestored).1⟩

/-- A rule for any method is looked up under the names of its service, and accepts the
paths of its expression. -/
theorem served_iff {service' method' : String} {rows : List RuleRow} {rules : List Rule}
    {e : Path.Expression} (hlists : t.ListsActive service' method' rows)
    (hrules : rows.mapM RuleRow.restored = .ok rules) (hkeyed : Table.rules.Keyed t.rules)
    (hrow : row ∈ t.rules) (hguards : row.Guards service e) :
    ((∃ rule ∈ rules, rule.id = .int row.id) ↔ Text.asciiLower (Text.strip service) = service') ∧
      ∀ rule ∈ rules, rule.id = .int row.id →
        ∀ path, rule.acceptsPath (.text path) = .ok (e.accepts path) := by
  obtain ⟨hfound, hrestored⟩ := restored_iff hlists hrules hkeyed hrow
  refine ⟨hfound.trans ?_, fun rule hrule hid => hguards.acceptsPath (hrestored rule hrule hid)⟩
  rw [hlists.mem_iff row, hguards.service]
  simp [hrow, hguards.isActive, hguards.method]

/-- What is shown is enforced.  Whatever was called and looked up before, a rule for a service
that is not blank and a pattern is made just when the trial of the pattern shows it as
compiled.  Whatever is called and looked up after that, as long as the rule is stored it is
among those that are looked up under a name of its service, and it accepts the paths that the
trial shows as accepted. -/
theorem preview_enforced (s : Session) (turns later : List Turn)
    (service pattern service' method' : String)
    (hservice : Text.strip service ≠ "")
    (hs : s.Fresh shared (methods.length * (turns.length + 1 + later.length)))
    (hrules : Stocked shared (methods.length * (turns.length + 1 + later.length)) s.tables.rules)
    (hordered : Table.rules.Ascending s.tables.rules)
    (hD : Digests (LookedUp (turns ++ later ++ [.find service' method']))) :
    ∃ c compiled, ∃ accepts : String → Bool,
      RuleChange.readCreation (.object [("service", .text service), ("path_dsl", .text pattern)]) =
        .ok c ∧
      (∀ path, Previews pattern path compiled (accepts path)) ∧
      let s₁ := s.afterTurns turns
      let s₂ := s₁.afterTurns (.rules (.create c) :: later)
      ((∃ row, (outcome (createRule c) s₁).1 = .ok row) ↔ compiled = true) ∧
      ∀ row, (outcome (createRule c) s₁).1 = .ok row →
        row ∈ (s₁.afterTurn (.rules (.create c))).tables.rules ∧
        (row ∈ s₂.tables.rules →
          ∃ rules, (outcome (findActive (.text service') (.text method') .null) s₂).1 = .ok rules ∧
          ((∃ rule ∈ rules, rule.id = .int row.id) ↔
            Text.asciiLower (Text.strip service) = Text.lower (Text.strip service')) ∧
          ∀ rule ∈ rules, rule.id = .int row.id →
            ∀ path, rule.acceptsPath (.text path) = .ok (accepts path)) := by
  have hturns : ∀ name method, .find name method ∈ turns →
      .find name method ∈ turns ++ later ++ [.find service' method'] := by
    intro name method hmem
    simp [hmem]
  -- The creation is a turn like those that follow it, but no lookup.
  have hlater :
      ∀ name method, .find name method ∈ Turn.rules (.create (.boundTo service pattern)) :: later →
      .find name method ∈ turns ++ later ++ [.find service' method'] := by
    intro name method hmem
    have hmem : .find name method ∈ later := by simpa using hmem
    simp [hmem]
  have hsteps : methods.length * (turns.length + 1 + later.length) =
      0 + methods.length * (later.length + 1) + methods.length * turns.length := by ring
  rw [hsteps] at hs hrules
  obtain ⟨-, ⟨hstocked₁, hordered₁⟩, v₁, h₁⟩ :=
    (showing_fresh (T := (· = s.tables)) hs).turns (upheld_ascending shared)
    hD turns ⟨hrules, hordered⟩ rfl fun _ _ h => h.of_finds hturns
  have hcounting : Counting shared (0 + 1) (s.afterTurns turns).cache v₁ :=
    h₁.counting.mono (Nat.add_le_add_left (Nat.mul_pos (by decide) (Nat.succ_pos later.length)) 0)
  obtain ⟨hmade, hstored⟩ := createRule_boundTo hservice hordered₁ hcounting pattern
  have hown : s.StillShown (· = s.tables) turns (s.afterTurns turns).tables :=
    stillShown_end (T := (· = s.tables)) rfl turns
  obtain ⟨-, ⟨hstocked₂, -⟩, v₂, h₂⟩ := h₁.turns (upheld_ascending shared) hD
    (.rules (.create (.boundTo service pattern)) :: later) ⟨hstocked₁, hordered₁⟩ hown fun _ _ h =>
      h.of_finds hlater
  obtain ⟨rows, rules, hfound, hlists, hrestored⟩ := (h₂.current hstocked₂).lists hD
    (stillShown_end hown _) service' method' ⟨rfl, service', method', by simp, rfl⟩
  rcases previews_cases pattern with ⟨m, hm, hshown⟩ | ⟨hnone, hshown⟩
  · refine ⟨_, true, m.accepts, RuleChange.readCreation_boundTo service pattern, hshown,
      ⟨fun _ => rfl, fun _ => hmade.mpr ⟨m, hm⟩⟩, fun row hrow => ?_⟩
    obtain ⟨hmem, m', hm', hguards⟩ := hstored row hrow
    obtain rfl : m = m' := by simpa [hm] using hm'
    refine ⟨hmem, fun hkept => ⟨rules, hfound, ?_⟩⟩
    exact served_iff hlists hrestored hstocked₂.keyed hkept hguards
  · refine ⟨_, false, fun _ => false, RuleChange.readCreation_boundTo service pattern, hshown,
      ⟨fun hrow => ?_, fun hfalse => (by cases hfalse)⟩, fun row hrow => ?_⟩
    · obtain ⟨m, hm⟩ := hmade.mp hrow
      exact absurd hm (hnone m)
    · obtain ⟨m, hm⟩ := hmade.mp ⟨row, hrow⟩
      exact absurd hm (hnone m)

/-- A rule is made and looked up before a pattern is tried. -/
def beforeTrial : List Turn := [.rules (.create readOrders), .find "shop" "GET"]

/-- What ` orders/:id ` is compiled to. -/
def ordersMatcher : Path.Matcher :=
  ⟨"orders/:id", ⟨"/orders/".toList.map Path.Item.char ++ [.wildcard], false⟩⟩

theorem compile_ordersMatcher : Path.compile " orders/:id " = .ok (some ordersMatcher) := by
  decide +kernel

/-- The pattern is padded and has no slash in front, and the rule is looked up three
seconds after it is made. -/
theorem preview_enforced_orders : ∃ c row rules, ∃ accepts : String → Bool,
    RuleChange.readCreation
      (.object [("service", .text " Shop "), ("path_dsl", .text " orders/:id ")]) = .ok c ∧
    (∀ path, Previews " orders/:id " path true (accepts path)) ∧
    accepts "/orders/42" = true ∧ accepts "/orders/42/items" = false ∧
    (outcome (createRule c) (sharedStart.afterTurns beforeTrial)).1 = .ok row ∧
    (outcome (findActive (.text "shop") (.text "GET") .null)
      ((sharedStart.afterTurns beforeTrial).afterTurns [.rules (.create c), .advance 3])).1 =
        .ok rules ∧
    (∃ rule ∈ rules, rule.id = .int row.id) ∧
    ∀ rule ∈ rules, rule.id = .int row.id →
      ∀ path, rule.acceptsPath (.text path) = .ok (accepts path) := by
  have hD : Digests (LookedUp (beforeTrial ++ [.advance 3] ++ [.find "shop" "GET"])) := by
    refine digests_of_one (lookupText "shop" "GET") fun service method hmem => ?_
    obtain ⟨rfl, rfl⟩ : service = "shop" ∧ method = "GET" := by simpa [beforeTrial] using hmem
    rfl
  have hrules :
      Stocked true (methods.length * (beforeTrial.length + 1 + 1)) sharedStart.tables.rules :=
    stocked_nil true _
  obtain ⟨c, compiled, accepts, hread, hshown, hmade, hserved⟩ :=
    preview_enforced sharedStart beforeTrial [.advance 3]
    " Shop " " orders/:id " "shop" "GET" (by decide +kernel) fresh_sharedStart hrules .nil hD
  obtain ⟨rfl, haccepted⟩ : compiled = true ∧
    ∀ path, accepts path = ordersMatcher.accepts path := by
    rcases previews_cases " orders/:id " with ⟨m, hm, htried⟩ | ⟨hnone, -⟩
    · obtain rfl : m = ordersMatcher := by simpa [compile_ordersMatcher] using hm.symm
      exact ⟨((hshown "").unique (htried "")).1, fun path => ((hshown path).unique (htried path)).2⟩
    · exact absurd compile_ordersMatcher (hnone _)
  obtain ⟨row, hrow⟩ := hmade.mpr rfl
  obtain ⟨hstored, hkept⟩ := hserved row hrow
  obtain ⟨rules, hfound, hlisted, haccepts⟩ := hkept hstored
  refine ⟨c, row, rules, accepts, hread, hshown, ?_, ?_, hrow, hfound,
    hlisted.mpr (by decide +kernel), haccepts⟩
  · rw [haccepted]
    decide +kernel
  · rw [haccepted]
    decide +kernel

end Session
end AccessControl
