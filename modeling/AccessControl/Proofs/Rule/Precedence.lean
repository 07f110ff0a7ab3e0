import AccessControl.Proofs.Rule.Selection
import Mathlib

/-! # Which rule governs

Rules are put in order and searched twice, for a route and for a path.  What is found depends on
no order of the rules: it is the first one by priority and number of those that are bound to the
route, or else of those that are bound to no route and accept the path (`Governs`), whatever
stored expressions are taken to accept.  So one rule more leaves what is found as it is, or is
found itself (`select_governs`). -/

namespace AccessControl
namespace Rule

variable {a b c r new : Rule} {rules ordered : List Rule} {P : Rule → Prop}

/-! ### The order of rules -/

/-- The priority and the number of a rule. -/
def Ranked (r : Rule) (priority id : ℤ) : Prop := r.priority = .int priority ∧ r.id = .int id

/-- The first rule has a higher priority, or the same priority and a lower number. -/
def Precedes (a b : Rule) : Prop :=
  ∃ p m q n, a.Ranked p m ∧ b.Ranked q n ∧ (q < p ∨ p = q ∧ m < n)

theorem Ranked.unique {p m q n : ℤ} (h : r.Ranked p m) (h' : r.Ranked q n) : p = q ∧ m = n := by
  obtain ⟨hp, hm⟩ := h
  obtain ⟨hq, hn⟩ := h'
  rw [hp, Value.int.injEq] at hq
  rw [hm, Value.int.injEq] at hn
  exact ⟨hq, hn⟩

theorem Selectable.ranked (h : r.Selectable) : ∃ p m, r.Ranked p m := by
  obtain ⟨p, hp⟩ := h.priority
  obtain ⟨m, hm⟩ := h.id
  exact ⟨p, m, hp, hm⟩

theorem Precedes.trans (hab : a.Precedes b) (hbc : b.Precedes c) : a.Precedes c := by
  obtain ⟨p, m, q, n, ha, hb, hlt⟩ := hab
  obtain ⟨q', n', p'', m'', hb', hc, hlt'⟩ := hbc
  obtain ⟨rfl, rfl⟩ := hb.unique hb'
  exact ⟨p, m, p'', m'', ha, hc, by omega⟩

theorem Precedes.asymm (hab : a.Precedes b) : ¬ b.Precedes a := by
  rintro ⟨q', n', p', m', hb', ha', hlt'⟩
  obtain ⟨p, m, q, n, ha, hb, hlt⟩ := hab
  obtain ⟨rfl, rfl⟩ := ha.unique ha'
  obtain ⟨rfl, rfl⟩ := hb.unique hb'
  omega

/-- Of two rules with different numbers, one precedes the other. -/
theorem Selectable.precedes_or (ha : a.Selectable) (hb : b.Selectable) (hne : a.id ≠ b.id) :
    a.Precedes b ∨ b.Precedes a := by
  obtain ⟨p, m, hp⟩ := ha.ranked
  obtain ⟨q, n, hq⟩ := hb.ranked
  have hmn : m ≠ n := by
    rintro rfl
    exact hne (hp.2.trans hq.2.symm)
  rcases lt_trichotomy p q with hlt | heq | hlt
  · exact .inr ⟨q, n, p, m, hq, hp, .inl hlt⟩
  · rcases lt_or_gt_of_ne hmn with hlt | hlt
    · exact .inl ⟨p, m, q, n, hp, hq, .inr ⟨heq, hlt⟩⟩
    · exact .inr ⟨q, n, p, m, hq, hp, .inr ⟨heq.symm, hlt⟩⟩
  · exact .inl ⟨p, m, q, n, hp, hq, .inl hlt⟩

theorem isBefore_iff (ha : a.Selectable) (hb : b.Selectable) :
    a.isBefore b = .ok true ↔ a.Precedes b := by
  obtain ⟨p, m, hp⟩ := ha.ranked
  obtain ⟨q, n, hq⟩ := hb.ranked
  have hprecedes : a.Precedes b ↔ q < p ∨ p = q ∧ m < n := by
    refine ⟨?_, fun hlt => ⟨p, m, q, n, hp, hq, hlt⟩⟩
    rintro ⟨p', m', q', n', hp', hq', hlt⟩
    obtain ⟨rfl, rfl⟩ := hp.unique hp'
    obtain ⟨rfl, rfl⟩ := hq.unique hq'
    exact hlt
  rw [hprecedes, Rule.isBefore, hp.1, hq.1, hp.2, hq.2, Value.alike_int, Value.alike_int,
    Value.isBefore_int, Value.isBefore_int]
  by_cases hpq : p = q <;> by_cases hmn : m = n <;> simp [hpq, hmn]

/-! ### Rules in order -/

/-- A rule is placed among ordered ones. -/
theorem place_spec (hr : r.Selectable) (h : ∀ a ∈ ordered, a.Selectable)
    (hnew : ∀ a ∈ ordered, a.id ≠ r.id) (hordered : ordered.Pairwise Precedes) :
    ∃ placed, place r ordered = .ok placed ∧ placed.Perm (r :: ordered) ∧
      placed.Pairwise Precedes := by
  induction ordered with
  | nil => exact ⟨[r], rfl, .refl _, List.pairwise_singleton _ _⟩
  | cons a ordered ih =>
      obtain ⟨ha, hrest⟩ := List.forall_mem_cons.mp h
      obtain ⟨hne, hothers⟩ := List.forall_mem_cons.mp hnew
      obtain ⟨hfirst, hpairwise⟩ := List.pairwise_cons.mp hordered
      obtain ⟨before, hbefore⟩ := ha.isBefore hr
      unfold place
      rw [hbefore]
      cases before with
      | true =>
          obtain ⟨placed, hplaced, hperm, hsorted⟩ := ih hrest hothers hpairwise
          have har : a.Precedes r := (isBefore_iff ha hr).mp hbefore
          refine ⟨a :: placed, by rw [hplaced]; rfl, (hperm.cons a).trans (.swap r a ordered), ?_⟩
          refine List.pairwise_cons.mpr ⟨fun b hb => ?_, hsorted⟩
          rcases List.mem_cons.mp (hperm.mem_iff.mp hb) with rfl | hb
          · exact har
          · exact hfirst b hb
      | false =>
          have hra : r.Precedes a := by
            refine (ha.precedes_or hr hne).resolve_left fun har => ?_
            rw [(isBefore_iff ha hr).mpr har] at hbefore
            cases hbefore
          refine ⟨r :: a :: ordered, rfl, .refl _,
            List.pairwise_cons.mpr ⟨fun b hb => ?_, hordered⟩⟩
          rcases List.mem_cons.mp hb with rfl | hb
          · exact hra
          · exact hra.trans (hfirst b hb)

theorem arrange_spec (h : ∀ r ∈ rules, r.Selectable) (hids : (rules.map Rule.id).Nodup) :
    ∃ ordered, arrange rules = .ok ordered ∧ ordered.Perm rules ∧ ordered.Pairwise Precedes := by
  induction rules with
  | nil => exact ⟨[], rfl, .refl _, .nil⟩
  | cons r rules ih =>
      obtain ⟨hr, hrest⟩ := List.forall_mem_cons.mp h
      obtain ⟨hid, hids⟩ := List.nodup_cons.mp hids
      obtain ⟨ordered, hordered, hperm, hsorted⟩ := ih hrest hids
      obtain ⟨placed, hplaced, hperm', hsorted'⟩ :=
        place_spec hr (fun a ha => hrest a (hperm.mem_iff.mp ha))
        (fun a ha heq => hid (heq ▸ List.mem_map_of_mem (hperm.mem_iff.mp ha))) hsorted
      refine ⟨placed, ?_, hperm'.trans (hperm.cons r), hsorted'⟩
      unfold arrange
      rw [hordered]
      exact hplaced

theorem inOrder_spec (h : ∀ r ∈ rules, r.Selectable) (hids : (rules.map Rule.id).Nodup) :
    ∃ ordered, inOrder rules = .ok ordered ∧ ordered.Perm rules ∧ ordered.Pairwise Precedes := by
  rw [inOrder_eq_arrange h]
  exact arrange_spec h hids

/-! ### The first rule of a kind -/

/-- A rule of a kind that precedes all others of that kind. -/
structure IsFirst (rules : List Rule) (P : Rule → Prop) (r : Rule) : Prop where
  mem : r ∈ rules
  holds : P r
  first : ∀ other ∈ rules, P other → other = r ∨ r.Precedes other

namespace IsFirst

theorem unique (h : IsFirst rules P a) (h' : IsFirst rules P b) : a = b := by
  rcases h.first b h'.mem h'.holds with heq | hab
  · exact heq.symm
  · exact (h'.first a h.mem h.holds).resolve_right hab.asymm

theorem perm {rules' : List Rule} (h : IsFirst rules P r) (hperm : rules'.Perm rules) :
    IsFirst rules' P r :=
  ⟨hperm.mem_iff.mpr h.mem, h.holds, fun other hother => h.first other (hperm.mem_iff.mp hother)⟩

theorem cons_other (h : IsFirst rules P r) (hnew : ¬ P new) : IsFirst (new :: rules) P r :=
  ⟨List.mem_cons_of_mem new h.mem, h.holds,
    List.forall_mem_cons.mpr ⟨fun hholds => absurd hholds hnew, h.first⟩⟩

theorem cons_alone (hnone : ∀ r ∈ rules, ¬ P r) (hnew : P new) : IsFirst (new :: rules) P new :=
  ⟨List.mem_cons_self, hnew,
    List.forall_mem_cons.mpr ⟨fun _ => .inl rfl, fun r hr hholds => absurd hholds (hnone r hr)⟩⟩

theorem cons_either (h : IsFirst rules P r) (hr : r.Selectable) (hnew : new.Selectable)
    (hne : r.id ≠ new.id) (hholds : P new) :
    IsFirst (new :: rules) P r ∨ IsFirst (new :: rules) P new := by
  rcases hr.precedes_or hnew hne with hbefore | hafter
  · exact .inl ⟨List.mem_cons_of_mem new h.mem, h.holds,
      List.forall_mem_cons.mpr ⟨fun _ => .inr hbefore, h.first⟩⟩
  · refine .inr ⟨List.mem_cons_self, hholds,
      List.forall_mem_cons.mpr ⟨fun _ => .inl rfl, fun other hmem hother => ?_⟩⟩
    rcases h.first other hmem hother with rfl | hlater
    · exact .inr hafter
    · exact .inr (hafter.trans hlater)

end IsFirst

theorem isFirst_of_find? {p : Rule → Bool} (hordered : ordered.Pairwise Precedes)
    (h : ordered.find? p = some r) :
    IsFirst ordered (p · = true) r := by
  obtain ⟨hp, before, after, rfl, hbefore⟩ := List.find?_eq_some_iff_append.mp h
  refine ⟨by simp, hp, fun other hmem hother => ?_⟩
  rcases List.mem_append.mp hmem with hmem | hmem
  · have hnot := hbefore other hmem
    rw [hother] at hnot
    cases hnot
  · rcases List.mem_cons.mp hmem with rfl | hmem
    · exact .inl rfl
    · exact .inr ((List.pairwise_cons.mp (List.pairwise_append.mp hordered).2.1).1 other hmem)

/-! ### Routes and paths -/

/-- The rule is bound to the route that is asked for, if one is. -/
def Bound (route : Option String) (r : Rule) : Prop :=
  ∃ name, route = some name ∧ name ≠ "" ∧ r.routeName = .text name

/-- The rule is bound to no route, and the path is one of those that its stored
expression is taken to accept. -/
def acceptsBy (reading : String → String → Bool) (path : String) (r : Rule) : Bool :=
  !r.hasRoute && (r.expression.text?.filter (· != "")).any (reading · path)

/-- The paths that a stored expression accepts.  What is no expression accepts none. -/
def storedReading (stored path : String) : Bool := (Regex.read stored).any (·.accepts path)

/-- The selection of a rule, with any reading of the stored expressions. -/
def selectBy (reading : String → String → Bool) (rules : List Rule) (path : String)
    (route : Value) :
    Except Failure (Option Rule) :=
  (inOrder rules).map fun ordered =>
    (byRoute ordered route).or (ordered.find? (acceptsBy reading path))

variable {reading : String → String → Bool} {path : String} {route : Option String}
  {found found' : Option Rule}

theorem Selectable.acceptsPath_eq (h : r.Selectable) (path : String) :
    r.acceptsPath (.text path) = .ok (r.acceptsBy storedReading path) := by
  unfold Rule.acceptsPath acceptsBy
  cases r.hasRoute with
  | true => rfl
  | false =>
      rcases h.expression with hnull | ⟨s, hs⟩
      · rw [hnull]
        rfl
      · rw [hs]
        by_cases hempty : s = ""
        · subst hempty
          rfl
        · have hgiven : (s != "") = true := by simpa using hempty
          cases hread : Regex.read s <;>
            simp [Path.storedMatches, Value.isTruthy, Value.text?, Path.pathOf, storedReading,
              hempty, hread]

theorem byPath_eq_find? (h : ∀ r ∈ ordered, r.Selectable) (path : String) :
    byPath (.text path) ordered = .ok (ordered.find? (acceptsBy storedReading path)) := by
  induction ordered with
  | nil => rfl
  | cons r ordered ih =>
      obtain ⟨hr, hrest⟩ := List.forall_mem_cons.mp h
      unfold byPath
      rw [hr.acceptsPath_eq, ih hrest, List.find?_cons]
      cases r.acceptsBy storedReading path <;> rfl

/-- The selection reads stored expressions as they are written. -/
theorem select_eq_selectBy (h : ∀ r ∈ rules, r.Selectable) (path : String) (route : Value) :
    select rules (.text path) route = selectBy storedReading rules path route := by
  obtain ⟨ordered, hordered⟩ := exists_arrange h
  unfold select selectBy
  rw [inOrder_eq_arrange h, hordered]
  simp only [Except.map, bind, Except.bind]
  cases byRoute ordered route with
  | some r => rfl
  | none => exact byPath_eq_find? (fun r hr => h r (mem_of_arrange hordered hr)) path

/-! ### What governs -/

/-- What governs a path and a route: the first of the rules that are bound to the route, or else the
first of those that are bound to no route and accept the path, if there is one. -/
inductive Governs (reading : String → String → Bool) (rules : List Rule) (path : String)
    (route : Option String) :
    Option Rule → Prop
  | bound {r : Rule} (hfirst : IsFirst rules (Bound route) r) :
      Governs reading rules path route (some r)
  | accepting {r : Rule} (hunbound : ∀ a ∈ rules, ¬ a.Bound route)
      (hfirst : IsFirst rules (acceptsBy reading path · = true) r) :
        Governs reading rules path route (some r)
  | nothing (hunbound : ∀ a ∈ rules, ¬ a.Bound route)
      (hnone : ∀ a ∈ rules, ¬ a.acceptsBy reading path = true) :
      Governs reading rules path route none

namespace Governs

/-- No two results govern. -/
theorem unique (h : Governs reading rules path route found)
    (h' : Governs reading rules path route found') :
    found' = found := by
  cases h with
  | bound hfirst =>
      cases h' with
      | bound hfirst' => rw [hfirst.unique hfirst']
      | accepting hunbound _ => exact absurd hfirst.holds (hunbound _ hfirst.mem)
      | nothing hunbound _ => exact absurd hfirst.holds (hunbound _ hfirst.mem)
  | accepting hunbound hfirst =>
      cases h' with
      | bound hfirst' => exact absurd hfirst'.holds (hunbound _ hfirst'.mem)
      | accepting _ hfirst' => rw [hfirst.unique hfirst']
      | nothing _ hnone => exact absurd hfirst.holds (hnone _ hfirst.mem)
  | nothing hunbound hnone =>
      cases h' with
      | bound hfirst' => exact absurd hfirst'.holds (hunbound _ hfirst'.mem)
      | accepting _ hfirst' => exact absurd hfirst'.holds (hnone _ hfirst'.mem)
      | nothing _ _ => rfl

theorem perm {rules' : List Rule} (h : Governs reading rules path route found)
    (hperm : rules'.Perm rules) :
    Governs reading rules' path route found := by
  have hall : ∀ {Q : Rule → Prop}, (∀ a ∈ rules, Q a) → ∀ a ∈ rules', Q a :=
    fun hQ a ha => hQ a (hperm.mem_iff.mp ha)
  cases h with
  | bound hfirst => exact .bound (hfirst.perm hperm)
  | accepting hunbound hfirst => exact .accepting (hall hunbound) (hfirst.perm hperm)
  | nothing hunbound hnone => exact .nothing (hall hunbound) (hall hnone)

/-- With one rule more, what governed still does, or the new rule does. -/
theorem cons (h : Governs reading rules path route found) (hrules : ∀ r ∈ rules, r.Selectable)
    (hnew : new.Selectable) (hid : new.id ∉ rules.map Rule.id) :
    Governs reading (new :: rules) path route found ∨
      Governs reading (new :: rules) path route (some new) := by
  have hne : ∀ r ∈ rules, r.id ≠ new.id := fun r hr heq => hid (heq ▸ List.mem_map_of_mem hr)
  by_cases hbound : new.Bound route
  · cases h with
    | bound hfirst =>
        exact (hfirst.cons_either (hrules _ hfirst.mem) hnew (hne _ hfirst.mem) hbound).imp .bound
          .bound
    | accepting hunbound _ => exact .inr (.bound (.cons_alone hunbound hbound))
    | nothing hunbound _ => exact .inr (.bound (.cons_alone hunbound hbound))
  · have hstill : (∀ a ∈ rules, ¬ a.Bound route) → ∀ a ∈ new :: rules, ¬ a.Bound route :=
      fun hunbound => List.forall_mem_cons.mpr ⟨hbound, hunbound⟩
    by_cases haccepts : new.acceptsBy reading path = true
    · cases h with
      | bound hfirst => exact .inl (.bound (hfirst.cons_other hbound))
      | accepting hunbound hfirst =>
          exact (hfirst.cons_either (hrules _ hfirst.mem) hnew (hne _ hfirst.mem) haccepts).imp
            (.accepting (hstill hunbound)) (.accepting (hstill hunbound))
      | nothing hunbound hnone =>
          exact .inr (.accepting (hstill hunbound) (.cons_alone hnone haccepts))
    · cases h with
      | bound hfirst => exact .inl (.bound (hfirst.cons_other hbound))
      | accepting hunbound hfirst =>
          exact .inl (.accepting (hstill hunbound) (hfirst.cons_other haccepts))
      | nothing hunbound hnone =>
          exact .inl (.nothing (hstill hunbound) (List.forall_mem_cons.mpr ⟨haccepts, hnone⟩))

end Governs

/-! ### What is found -/

theorem bound_iff :
    ((Value.ofOption .text route).isTruthy && r.routeName.alike (Value.ofOption .text route)) =
      true ↔
    r.Bound route := by
  cases route with
  | none => simp [Value.ofOption, Value.isTruthy, Bound]
  | some name => simp [Value.ofOption, Value.isTruthy, Value.alike_text_iff, Bound]

theorem byRoute_eq_find? (ordered : List Rule) (route : Value) :
    byRoute ordered route = ordered.find? fun r => route.isTruthy && r.routeName.alike route := by
  unfold byRoute
  cases route.isTruthy with
  | true => rfl
  | false => exact (List.find?_eq_none.mpr (by simp)).symm

theorem IsFirst.congr {Q : Rule → Prop} (h : IsFirst rules P r) (hsame : ∀ a, P a ↔ Q a) :
    IsFirst rules Q r :=
  ⟨h.mem, (hsame r).mp h.holds,
   fun other hmem hother => h.first other hmem ((hsame other).mpr hother)⟩

/-- Of ordered rules, the one that is found governs. -/
theorem governs_ordered (hordered : ordered.Pairwise Precedes) : Governs reading ordered path route
    ((byRoute ordered (Value.ofOption .text route)).or
      (ordered.find? (acceptsBy reading path))) := by
  rw [byRoute_eq_find?]
  cases hbound : ordered.find? fun r => (Value.ofOption .text route).isTruthy &&
      r.routeName.alike (Value.ofOption .text route) with
  | some r => exact .bound ((isFirst_of_find? hordered hbound).congr fun _ => bound_iff)
  | none =>
      have hunbound : ∀ a ∈ ordered, ¬ a.Bound route := fun a ha h =>
        List.find?_eq_none.mp hbound a ha (bound_iff.mpr h)
      rw [Option.none_or]
      cases haccepts : ordered.find? (acceptsBy reading path) with
      | some r => exact .accepting hunbound (isFirst_of_find? hordered haccepts)
      | none => exact .nothing hunbound (List.find?_eq_none.mp haccepts)

/-- What is selected is what governs. -/
theorem selectBy_eq_ok_iff (hrules : ∀ r ∈ rules, r.Selectable) (hids : (rules.map Rule.id).Nodup) :
    selectBy reading rules path (Value.ofOption .text route) = .ok found ↔
      Governs reading rules path route found := by
  obtain ⟨ordered, hordered, hperm, hsorted⟩ := inOrder_spec hrules hids
  have hgoverns := (governs_ordered hsorted : Governs reading ordered path route _).perm hperm.symm
  unfold selectBy
  rw [hordered, Except.map, Except.ok.injEq]
  exact ⟨fun heq => heq ▸ hgoverns, fun h => h.unique hgoverns⟩

/-- Among rules with different numbers, a path and a route select what governs them, whatever the
stored expressions are taken to accept; the rules read them as they are written.  The rules may be
given in any order, and one rule more leaves the result as it is, or is the result. -/
theorem select_governs (rules : List Rule) (hrules : ∀ r ∈ rules, r.Selectable)
    (hids : (rules.map Rule.id).Nodup) (path : String) (route : Option String) :
    let asked := Value.ofOption Value.text route
    select rules (.text path) asked = selectBy storedReading rules path asked ∧
    ∀ reading, ∃ found, selectBy reading rules path asked = .ok found ∧
      (∀ found', Governs reading rules path route found' ↔ found' = found) ∧
      (∀ rules' : List Rule, rules'.Perm rules → selectBy reading rules' path asked = .ok found) ∧
      ∀ (new : Rule) (rules' : List Rule), new.Selectable → new.id ∉ rules.map Rule.id →
        rules'.Perm (new :: rules) →
        selectBy reading rules' path asked = .ok found ∨
          selectBy reading rules' path asked = .ok (some new) := by
  intro asked
  refine ⟨select_eq_selectBy hrules path asked, fun reading => ?_⟩
  obtain ⟨ordered, hordered, -, -⟩ := inOrder_spec hrules hids
  obtain ⟨found, hfound⟩ : ∃ found, selectBy reading rules path asked = .ok found := by
    unfold selectBy
    rw [hordered]
    exact ⟨_, rfl⟩
  have hgoverns : Governs reading rules path route found :=
    (selectBy_eq_ok_iff hrules hids).mp hfound
  have hothers : ∀ {rules' more : List Rule}, (∀ r ∈ more, r.Selectable) →
      (more.map Rule.id).Nodup →
      rules'.Perm more → ∀ {found'}, Governs reading more path route found' →
      selectBy reading rules' path asked = .ok found' := by
    intro rules' more hmore hmoreIds hperm found' h
    refine (selectBy_eq_ok_iff (fun r hr => hmore r (hperm.mem_iff.mp hr)) ?_).mpr (h.perm hperm)
    exact (hperm.map Rule.id).nodup_iff.mpr hmoreIds
  refine ⟨found, hfound, fun found' => ⟨hgoverns.unique, fun heq => heq ▸ hgoverns⟩,
    fun rules' hperm => ?_, ?_⟩
  · exact hothers hrules hids hperm hgoverns
  · intro new rules' hnew hid hperm
    have hmore : ∀ r ∈ new :: rules, r.Selectable := List.forall_mem_cons.mpr ⟨hnew, hrules⟩
    have hmoreIds : ((new :: rules).map Rule.id).Nodup := List.nodup_cons.mpr ⟨hid, hids⟩
    exact (hgoverns.cons hrules hnew hid).imp (hothers hmore hmoreIds hperm)
      (hothers hmore hmoreIds hperm)

/-- A rule that is told from others by its number, its priority and what it is bound to. -/
def listed (id priority : ℤ) (routeName expression : Value) : Rule where
  id := .int id
  service := .text "shop"
  method := .text "GET"
  priority := .int priority
  routeName := routeName
  pattern := .null
  expression := expression
  scope := .text "none"
  sources := Stores.Sources.none
  matching := .text "all"
  allowsEmpty := .bool false
  rolesAny := []
  permissionsAny := ["orders.read"]
  permissionsAll := []
  bypassRoles := []
  bypassPermissions := []

/-- Two equal rules for a path; before them one for a route, one that cannot be read, and
one bound to nothing. -/
def severalRules : List Rule :=
  [listed 4 0 .null (.text "^/orders$"), listed 3 0 .null (.text "^/orders$"),
   listed 2 9 .null (.text "(orders"),
    listed 1 5 (.text "orders.list") (.text "^/orders$"), listed 5 7 .null .null]

/-- The lower number decides between the equal rules, and a route that is asked for
decides before any path. -/
theorem select_governs_severalRules :
    (∃ r, Governs storedReading severalRules "/orders" none (some r) ∧ r.id.int? = some 3) ∧
      ∃ r, Governs storedReading severalRules "/orders" (some "orders.list") (some r) ∧
        r.id.int? = some 1 := by
  have hrules : ∀ r ∈ severalRules, r.Selectable := by
    have hlisted : ∀ (id priority : ℤ) (routeName : Value) (stored : String),
        (listed id priority routeName (.text stored)).Selectable :=
      fun id priority _ stored => ⟨⟨id, rfl⟩, ⟨priority, rfl⟩, .inr ⟨stored, rfl⟩⟩
    intro r hr
    simp only [severalRules, List.mem_cons, List.not_mem_nil, or_false] at hr
    rcases hr with rfl | rfl | rfl | rfl | rfl
    · exact hlisted ..
    · exact hlisted ..
    · exact hlisted ..
    · exact hlisted ..
    · exact ⟨⟨5, rfl⟩, ⟨7, rfl⟩, .inl rfl⟩
  have hids : (severalRules.map Rule.id).Nodup := by simp [severalRules, listed]
  have hgoverns : ∀ (route : Option String) (n : ℤ),
      (selectBy storedReading severalRules "/orders" (Value.ofOption .text route)).toOption.map
        (·.map (·.id.int?)) =
        some (some (some n)) →
      ∃ r, Governs storedReading severalRules "/orders" route (some r) ∧ r.id.int? = some n := by
    intro route n hrun
    obtain ⟨-, hselect⟩ := select_governs severalRules hrules hids "/orders" route
    obtain ⟨found, hfound, hgoverns, -⟩ := hselect storedReading
    rw [hfound] at hrun
    obtain ⟨r, rfl, hr⟩ : ∃ r, found = some r ∧ r.id.int? = some n := by
      simpa [Except.toOption] using hrun
    exact ⟨r, (hgoverns _).mpr rfl, hr⟩
  exact ⟨hgoverns none 3 (by decide +kernel), hgoverns (some "orders.list") 1 (by decide +kernel)⟩

end Rule
end AccessControl
