import AccessControl.Proofs.Path.Language
import AccessControl.Proofs.Session.RuleSteps
import Mathlib

/-! # Stored rules in final form

A stored rule is `WellFormed` when its texts are trimmed, its words are known, it is bound to a
route or to a pattern with the expression of that pattern, and its columns of names and keys hold
each name once.  A draft of a well-formed rule stays `Tidy` through every change, and what a tidy
draft is settled to is well-formed (`Tidy.wellFormed_toRow`): an expression is kept only when the
pattern is.  So calls never lead to a rule that is not well-formed (`wellFormed_calls`). -/

namespace AccessControl

open Database

/-! ### Trimmed texts -/

namespace Text

theorem dropWhile_trim (p : Char → Bool) (cs : List Char) :
    (trim p cs).dropWhile p = trim p cs := by
  have hfront : trim p cs <+: cs.dropWhile p := List.rdropWhile_prefix p _
  rw [List.dropWhile_eq_self_iff]
  intro hpos
  have hfirst : 0 < (cs.dropWhile p).length := hpos.trans_le hfront.length_le
  rw [hfront.getElem hpos]
  exact List.dropWhile_eq_self_iff.mp (List.dropWhile_idempotent p cs) hfirst

theorem trim_trim (p : Char → Bool) (cs : List Char) : trim p (trim p cs) = trim p cs := by
  rw [trim, dropWhile_trim]
  exact List.rdropWhile_idempotent p _

theorem strip_strip (s : String) : strip (strip s) = strip s := by
  rw [← String.toList_inj, Path.strip_toList, Path.strip_toList, trim_trim]

/-- A text that is not empty and has no white space at its ends. -/
def Trimmed (s : String) : Prop := s ≠ "" ∧ strip s = s

theorem trimmed_strip {s : String} (h : strip s ≠ "") : Trimmed (strip s) := ⟨h, strip_strip s⟩

end Text

open Text (Trimmed trimmed_strip)

/-! ### Well-formed rules -/

/-- A column of names: null, or names that are trimmed and different, and not none at all. -/
def NamesColumn (v : Value) : Prop :=
  v = .null ∨ ∃ names, v = Value.texts names ∧ names ≠ [] ∧ names.Nodup ∧ ∀ name ∈ names,
    Trimmed name

/-- A column of sources: null, or keys under different buckets, that are trimmed and different in
each, and not no bucket at all. -/
def SourcesColumn (v : Value) : Prop :=
  v = .null ∨ ∃ fields, v = .object fields ∧ fields ≠ [] ∧ (fields.map Prod.fst).Nodup ∧
    ∀ f ∈ fields,
    f.1 ∈ Stores.Bucket.names ∧ ∃ keys, f.2 = Value.texts keys ∧ keys.Nodup ∧
      ∀ key ∈ keys, Trimmed key

/-- A rule is bound to a route and nothing else, or to a pattern with the expression
that it is compiled to. -/
inductive Database.RuleRow.Bound (row : RuleRow) : Prop
  | route (name : String) (hname : Trimmed name) (hroute : row.routeName = some name)
      (hpattern : row.pattern = none)
      (hexpression : row.expression = none)
  | pattern (p : String) (hp : Trimmed p) (hroute : row.routeName = none)
      (hpattern : row.pattern = some p)
      (hexpression : Path.compileText p = .ok row.expression)

/-- A stored rule in its final form. -/
structure Database.RuleRow.WellFormed (row : RuleRow) : Prop where
  service : Trimmed row.service
  method : row.method ∈ methods
  scope : row.scope ∈ Scope.words
  matching : row.matching ∈ Matching.words
  bound : row.Bound
  names : ∀ column ∈ row.nameColumns, NamesColumn column
  sources : SourcesColumn row.sources

/-! ### Normal forms -/

namespace RuleText

theorem trimmed_of_mem {s t : String} (h : t ∈ trimmed s) : Trimmed t := by
  unfold trimmed at h
  dsimp only at h
  split at h
  · cases h
  · next hne =>
      obtain rfl := Option.some.inj h
      exact trimmed_strip hne

theorem trimmed_names (given : List String) :
    (names given).Nodup ∧ ∀ name ∈ names given, Trimmed name := by
  refine ⟨nodup_distinct _, fun name hname => ?_⟩
  obtain ⟨hmem, hne⟩ := List.mem_filter.mp ((mem_distinct _ name).mp hname)
  obtain ⟨s, -, rfl⟩ := List.mem_map.mp hmem
  exact trimmed_strip (by simpa using hne)

theorem namesColumn_storedNames (given : Option (List String)) :
    NamesColumn (storedNames given) := by
  unfold storedNames
  cases given with
  | none => exact .inl rfl
  | some given =>
      obtain ⟨hnodup, htrimmed⟩ := trimmed_names given
      rw [Option.map_some]
      cases hnames : names given with
      | nil => exact .inl rfl
      | cons name rest =>
          rw [hnames] at hnodup htrimmed
          exact .inr ⟨name :: rest, rfl, List.cons_ne_nil _ _, hnodup, htrimmed⟩

theorem sourcesColumn_storedSources (given : Option SourceKeys) :
    SourcesColumn (storedSources given) := by
  unfold storedSources
  cases given with
  | none => exact .inl rfl
  | some keys =>
      dsimp only
      split
      · exact .inl rfl
      · next hsome =>
          refine .inr ⟨_, rfl, by simpa using hsome, ?_, fun f hf => ?_⟩
          · -- The buckets that are given stand in the order of all of them.
            have hbuckets :
                ([("path", keys.path), ("query", keys.query), ("body", keys.body)].map
                  Prod.fst).Nodup := by
              simp
            refine hbuckets.sublist ?_
            rcases keys with ⟨_ | path, _ | query, _ | body⟩ <;> simp
          · obtain ⟨b, hb, hgiven⟩ := List.mem_filterMap.mp hf
            obtain ⟨given, -, rfl⟩ := Option.map_eq_some_iff.mp hgiven
            have hname : b.1 ∈ Stores.Bucket.names := by
              revert b
              simp [Stores.Bucket.names, Stores.Bucket.all, Stores.Bucket.name]
            exact ⟨hname, _, rfl, trimmed_names given⟩

end RuleText

/-! ### Drafts -/

namespace Draft

/-- A draft in normal form: what it has of texts is trimmed, and its columns are those
of a well-formed rule. -/
structure Tidy (d : Draft) : Prop where
  service : ∀ s ∈ d.service, Trimmed s
  pattern : ∀ p ∈ d.pattern, Trimmed p
  routeName : ∀ name ∈ d.routeName, Trimmed name
  names : ∀ column ∈ d.nameColumns, NamesColumn column
  sources : SourcesColumn d.sources

theorem tidy_empty : empty.Tidy where
  service _ h := by cases h
  pattern _ h := by cases h
  routeName _ h := by cases h
  names column hcolumn := by
    obtain rfl : column = .null := by simpa [nameColumns, empty] using hcolumn
    exact .inl rfl
  sources := .inl rfl

theorem tidy_ofRow {row : RuleRow} (h : row.WellFormed) : (ofRow row).Tidy where
  service s hs := by
    obtain rfl := Option.some.inj hs
    exact h.service
  pattern p hp := by
    change row.pattern = some p at hp
    cases h.bound with
    | route name hname hroute hpattern hexpression => simp [hpattern] at hp
    | pattern q hq hroute hpattern hexpression =>
        obtain rfl : q = p := by simpa [hpattern] using hp
        exact hq
  routeName name hname := by
    change row.routeName = some name at hname
    cases h.bound with
    | route other hother hroute hpattern hexpression =>
        obtain rfl : other = name := by simpa [hroute] using hname
        exact hother
    | pattern p hp hroute hpattern hexpression => simp [hroute] at hname
  names := h.names
  sources := h.sources

theorem trimmed_elim {given : Named String} {old : Option String} (hold : ∀ s ∈ old, Trimmed s) :
    ∀ s ∈ given.elim old (·.bind RuleText.trimmed), Trimmed s := by
  intro s hs
  cases given with
  | none => exact hold s hs
  | some given =>
      obtain ⟨text, -, htext⟩ := Option.bind_eq_some_iff.mp hs
      exact RuleText.trimmed_of_mem htext

theorem Tidy.change {d : Draft} (h : d.Tidy) (c : RuleChange) : (d.apply c).Tidy where
  service := trimmed_elim h.service
  pattern := trimmed_elim h.pattern
  routeName := trimmed_elim h.routeName
  names := by
    have hnames : ∀ (given : Named (List String)) {column : Value}, NamesColumn column →
        NamesColumn (given.elim column RuleText.storedNames) := by
      intro given column hcolumn
      cases given with
      | none => exact hcolumn
      | some given => exact RuleText.namesColumn_storedNames given
    have hd := h.names
    simp only [nameColumns, List.forall_mem_cons] at hd ⊢
    exact ⟨hnames _ hd.1, hnames _ hd.2.1, hnames _ hd.2.2.1, hnames _ hd.2.2.2.1,
      hnames _ hd.2.2.2.2.1, hd.2.2.2.2.2⟩
  sources := by
    unfold Draft.apply
    cases c.sources with
    | none => exact h.sources
    | some given => exact RuleText.sourcesColumn_storedSources given

/-! ### Settled drafts -/

theorem isGiven_of_trimmed {s : String} (h : Trimmed s) : isGiven (some s) = true := by
  simpa [isGiven] using h.1

theorem exists_of_isGiven {column : Option String} (h : isGiven column = true) :
    ∃ s, column = some s := by
  cases column with
  | none => cases h
  | some s => exact ⟨s, rfl⟩

theorem mem_of_problems {name : String} {allowed : List String} {column : Option String}
    (hnull : nullProblem name column = []) (hword : wordProblem name allowed column = []) :
    ∃ word ∈ allowed, column = some word := by
  cases column with
  | none => simp [nullProblem] at hnull
  | some word => exact ⟨word, by simpa [wordProblem] using hword, rfl⟩

/-- What a draft without problems holds. -/
structure Complete (d : Draft) : Prop where
  service : isGiven d.service = true
  method : ∃ word ∈ methods, d.method = some word
  scope : ∃ word ∈ Scope.words, d.scope = some word
  matching : ∃ word ∈ Matching.words, d.matching = some word
  binding : ∃ stored, d.binding = .ok stored

theorem complete_of_problems {d : Draft} (h : d.problems = []) : d.Complete := by
  unfold problems columnProblems at h
  simp only [List.append_eq_nil_iff, and_assoc] at h
  obtain ⟨hmethod, hscope, hmatching, -, -, -, hservice, hmethodWord, hscopeWord, hmatchingWord,
    hbinding⟩ := h
  refine ⟨?_, mem_of_problems hmethod hmethodWord, mem_of_problems hscope hscopeWord,
    mem_of_problems hmatching hmatchingWord, ?_⟩
  · by_contra hnone
    simp [hnone] at hservice
  · cases hbound : d.binding with
    | ok stored => exact ⟨stored, rfl⟩
    | error problem => simp [hbound] at hbinding

/-- How a draft is settled: a route alone is left, or the pattern gets the expression that it is
compiled to, or it keeps its expression when it is not changed. -/
inductive Settles (d : Draft) (patternChanged : Bool) : Draft → Prop
  | route (hroute : isGiven d.routeName = true) :
      Settles d patternChanged { d with pattern := none, expression := none }
  | compiled (p : String) (stored : Option String) (hroute : isGiven d.routeName = false)
      (hpattern : d.pattern = some p)
      (hcompiled : Path.compileText p = .ok stored) :
        Settles d patternChanged { d with expression := stored }
  | kept (p : String) (hroute : isGiven d.routeName = false) (hpattern : d.pattern = some p)
      (hchanged : patternChanged = false) (hexpression : d.expression ≠ none) :
        Settles d patternChanged d

/-- Without a route, a draft that is bound has a pattern that is compiled. -/
theorem compiled_of_binding {d : Draft} (hroute : isGiven d.routeName = false)
    {stored : Option String} (h : d.binding = .ok stored) :
    ∃ p, d.pattern = some p ∧ Path.compileText p = .ok stored := by
  simp only [binding, hroute, Bool.false_eq_true, if_false] at h
  split at h
  · cases h
  · next hpattern =>
      have hgiven : isGiven d.pattern = true := by simpa using hpattern
      obtain ⟨p, hp⟩ := exists_of_isGiven hgiven
      rw [hp, Option.getD_some] at h
      refine ⟨p, hp, ?_⟩
      cases htext : Path.compileText p with
      | error e =>
          rw [htext] at h
          cases h
      | ok text =>
          rw [htext] at h
          rw [Except.ok.inj h]

theorem settle_cases {d d' : Draft} {patternChanged : Bool} (h : d.settle patternChanged = .ok d') :
    d.Complete ∧ d.Settles patternChanged d' := by
  unfold settle at h
  split at h
  · cases h
  · next hnone =>
      have hcomplete : d.Complete := complete_of_problems (by simpa using hnone)
      refine ⟨hcomplete, ?_⟩
      split at h
      · next hroute =>
          obtain rfl := Except.ok.inj h
          exact .route hroute
      · next hroute =>
          obtain ⟨stored, hstored⟩ := hcomplete.binding
          obtain ⟨p, hp, hcompiled⟩ := compiled_of_binding (by simpa using hroute) hstored
          rw [hstored] at h
          split at h
          · obtain rfl := Except.ok.inj h
            exact .compiled p stored (by simpa using hroute) hp hcompiled
          · next hkept =>
              obtain ⟨hchanged, hexpression⟩ : patternChanged = false ∧ d.expression ≠ none := by
                simpa using hkept
              obtain rfl := Except.ok.inj h
              exact .kept p (by simpa using hroute) hp hchanged hexpression

/-- A tidy draft is settled to a well-formed rule, if an expression that it keeps is that of its
pattern. -/
theorem Tidy.wellFormed_toRow {d d' : Draft} (h : d.Tidy) {patternChanged : Bool}
    (hsettle : d.settle patternChanged = .ok d')
    (hkept : ∀ p, patternChanged = false → d.expression ≠ none → d.pattern = some p →
      Path.compileText p = .ok d.expression) (id : ℤ) : (d'.toRow id).WellFormed := by
  obtain ⟨hcomplete, hsettles⟩ := settle_cases hsettle
  obtain ⟨service, hservice⟩ := exists_of_isGiven hcomplete.service
  obtain ⟨method, hmethod, hmethodColumn⟩ := hcomplete.method
  obtain ⟨scope, hscope, hscopeColumn⟩ := hcomplete.scope
  obtain ⟨matching, hmatching, hmatchingColumn⟩ := hcomplete.matching
  have hunrouted : isGiven d.routeName = false → d.routeName = none := by
    intro hroute
    cases hname : d.routeName with
    | none => rfl
    | some name =>
        rw [hname, isGiven_of_trimmed (h.routeName name hname)] at hroute
        cases hroute
  have hbound : (d'.toRow id).Bound := by
    cases hsettles with
    | route hroute =>
        obtain ⟨name, hname⟩ := exists_of_isGiven hroute
        exact .route name (h.routeName name hname) hname rfl rfl
    | compiled p stored hroute hpattern hcompiled =>
        exact .pattern p (h.pattern p hpattern) (hunrouted hroute) hpattern hcompiled
    | kept p hroute hpattern hchanged hexpression =>
        exact .pattern p (h.pattern p hpattern) (hunrouted hroute) hpattern
          (hkept p hchanged hexpression hpattern)
  -- All other columns are those of the draft.
  have hrow : (d'.toRow id).service = service ∧ (d'.toRow id).method = method ∧
      (d'.toRow id).scope = scope ∧
      (d'.toRow id).matching = matching ∧ (d'.toRow id).nameColumns = d.nameColumns ∧
      (d'.toRow id).sources = d.sources := by
    cases hsettles <;>
      simp [toRow, hservice, hmethodColumn, hscopeColumn, hmatchingColumn, nameColumns,
      RuleRow.nameColumns]
  obtain ⟨hrowService, hrowMethod, hrowScope, hrowMatching, hrowNames, hrowSources⟩ := hrow
  refine ⟨?_, by rwa [hrowMethod], by rwa [hrowScope], by rwa [hrowMatching], hbound, ?_, ?_⟩
  · rw [hrowService]
    exact h.service service hservice
  · rw [hrowNames]
    exact h.names
  · rw [hrowSources]
    exact h.sources

/-- A change that gives a rule no other pattern leaves it the pattern of its expression. -/
theorem compiled_of_unchanged {row : RuleRow} (h : row.WellFormed) {c : RuleChange}
    (hchanged : (ofRow row).changesPattern c = false) {p : String}
    (hexpression : ((ofRow row).apply c).expression ≠ none)
    (hpattern : ((ofRow row).apply c).pattern = some p) :
    Path.compileText p = .ok ((ofRow row).apply c).expression := by
  -- The pattern is compared in normal form, in which a well-formed rule holds it.
  have hsame : ((ofRow row).apply c).pattern = row.pattern := by
    unfold changesPattern at hchanged
    unfold Draft.apply
    cases hgiven : c.pattern with
    | none => rfl
    | some given =>
        rw [hgiven] at hchanged
        simpa [ofRow] using hchanged
  cases h.bound with
  | route name hname hroute hnone hnothing => exact absurd hnothing hexpression
  | pattern q hq hroute hrow hcompiled =>
      obtain rfl : q = p := by simpa [hsame, hrow] using hpattern
      exact hcompiled

end Draft

/-! ### Calls -/

namespace Session

theorem NewRule.wellFormed {c : RuleChange} {t t' : Tables} {row : RuleRow}
    (h : NewRule c t row t') :
    row.WellFormed := by
  obtain ⟨d, hsettle, rfl⟩ := h.settled
  exact (Draft.tidy_empty.change c).wellFormed_toRow hsettle (fun _ hchanged => by cases hchanged) _

theorem ChangedRule.wellFormed {old row : RuleRow} {c : RuleChange} (h : ChangedRule old c row)
    (hold : old.WellFormed) : row.WellFormed := by
  obtain ⟨d, hsettle, rfl⟩ := h.settled
  exact ((Draft.tidy_ofRow hold).change c).wellFormed_toRow hsettle
    (fun p hchanged hexpression hpattern =>
      Draft.compiled_of_unchanged hold hchanged hexpression hpattern) _

theorem wellFormed_toggled {row : RuleRow} (h : row.WellFormed) (flag : Bool) :
    ({ row with isActive := flag } : RuleRow).WellFormed where
  service := h.service
  method := h.method
  scope := h.scope
  matching := h.matching
  bound := by
    cases h.bound with
    | route name hname hroute hpattern hexpression =>
        exact .route name hname hroute hpattern hexpression
    | pattern p hp hroute hpattern hexpression => exact .pattern p hp hroute hpattern hexpression
  names := h.names
  sources := h.sources

theorem RuleWrite.wellFormed {t t' : Tables} (h : RuleWrite t t')
    (ht : ∀ row ∈ t.rules, row.WellFormed) :
    ∀ row ∈ t'.rules, row.WellFormed :=
  h.forall_rules (fun hnew => hnew.wellFormed) (fun hchanged => hchanged.wellFormed)
    (fun flag hold => wellFormed_toggled hold flag) ht

/-- Every stored rule is well-formed after any calls, accepted or not, that start without
rules: its texts are trimmed, its words are known, it is bound to a route alone or to a
pattern with the expression that this is compiled to, and its columns of names and keys are
null or hold each trimmed name once. -/
theorem wellFormed_calls (s : Session) (calls : List RuleCall) (hs : s.tables.rules = []) :
    ∀ row ∈ (calls.foldl (fun s call => afterRuleCall call s) s).tables.rules, row.WellFormed :=
  (reachable_foldl hs calls).induct (Q := fun rows => ∀ row ∈ rows, row.WellFormed)
    (fun row hrow => by cases hrow)
    fun t t' hwrite ht => hwrite.wellFormed ht

/-- A change that names no field. -/
def nothingNamed : RuleChange where
  service := none
  method := none
  pattern := none
  routeName := none
  rolesAny := none
  permissionsAny := none
  permissionsAll := none
  bypassRoles := none
  bypassPermissions := none
  scope := none
  sources := none
  matching := none
  allowsEmpty := none
  isActive := none
  priority := none

/-- Orders of a store may be read by those who have the permission there. -/
def ordersOfStore : RuleChange :=
  { nothingNamed with
    service := some (some " shop "), method := some (some "get"), pattern := some (some "/orders"),
    permissionsAny := some (some [" orders.read", "", "orders.read"]), scope :=
      some (some "scoped"),
    sources := some (some ⟨none, some [" store", "store"], none⟩), matching := some (some "ANY"),
    allowsEmpty := some (some false), isActive := some (some true), priority := some (some 0) }

/-- A rule for a pattern gets a route, then another pattern, the same one again and one that is
refused. -/
def rebinding : List RuleCall :=
  [.create ordersOfStore, .update (.int 1) { nothingNamed with routeName := some (some "orders ") },
    .update (.int 1) { nothingNamed with routeName := some none, pattern := some (some "/carts") },
    .update (.int 1) { nothingNamed with pattern := some (some " /carts ") },
    .update (.int 1) { nothingNamed with pattern := some (some "/a b") }, .toggle (.int 1) .null]

/-- A session without rules, over an empty cache in memory. -/
def withoutRules : Session := Session.start .standard ⟨.memory [], "authz", 0, [1], []⟩

theorem wellFormed_calls_rebinding :
    let rows := (rebinding.foldl (fun s call => afterRuleCall call s) withoutRules).tables.rules
    withoutRules.tables.rules = [] ∧
      rows.map (fun row => (row.routeName, row.pattern, row.expression, row.isActive)) =
      [(none, some "/carts", some "^/carts$", false)] ∧ ∀ row ∈ rows, row.WellFormed :=
  ⟨rfl, by decide +kernel, wellFormed_calls withoutRules rebinding rfl⟩

end Session
end AccessControl
