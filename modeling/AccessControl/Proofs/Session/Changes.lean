import AccessControl.Proofs.Session.Holdings
import Mathlib

/-! # What changes leave untouched

A call of the hierarchy or of the assignments keeps a session orderly, with a cache of its own or
without one, and leaves every store untouched that it is not about: the rows of the store, its
graph, its epoch, and what is remembered of the permissions there (`orderly_hierarchyCall`,
`orderly_assignmentCall`).  The graphs that are kept stay true through every change. -/

namespace AccessControl
namespace Session

open Database Cache

variable {shared : Bool} {left : ℕ} {st other : ℤ} {s s' : Session} {m m' : View} {t t' : Tables}

/-! ### Untouched stores -/

/-- The rows of a store and its graph stay, and so do its epoch and what is remembered of
the permissions there. -/
structure Untouched (st : ℤ) (s : Session) (m : View) (s' : Session) (m' : View) : Prop where
  twins : Twins st s s'
  space : s'.cache.space = s.cache.space
  epoch : m' ((Key.epoch st).text s.cache.space) = m ((Key.epoch st).text s.cache.space)
  permissions :
      ∀ u e, m' ((Key.permissions u st e).text s.cache.space) =
      m ((Key.permissions u st e).text s.cache.space)

theorem Untouched.trans {s₁ s₂ : Session} {m₁ m₂ : View} (h : Untouched st s m s₁ m₁)
    (h' : Untouched st s₁ m₁ s₂ m₂) :
    Untouched st s m s₂ m₂ where
  twins := h.twins.trans h'.twins
  space := h'.space.trans h.space
  epoch := by rw [← h.space, h'.epoch, h.space, h.epoch]
  permissions u e := by rw [← h.space, h'.permissions, h.space, h.permissions]

theorem Noted.untouched (hnoted : Noted s s') (m : View) : Untouched st s m s' m where
  twins := by
    refine ⟨by rw [hnoted.settings], hnoted.tables ▸ .refl st _, ?_⟩
    rw [graphAt, graphAt, hnoted.graphs, hnoted.tables]
  space := by rw [hnoted.cache]
  epoch := rfl
  permissions _ _ := rfl

theorem untouched_refl (st : ℤ) (s : Session) (m : View) : Untouched st s m s m :=
  (Noted.refl s).untouched m

theorem orderly_noted (h : Orderly shared left s m) (hnoted : Noted s s') :
    Orderly shared left s' m :=
  h.congr hnoted.cache hnoted.tables hnoted.saved

/-! ### The hierarchy -/

/-- Forgetting the graph of another store leaves the one of the store. -/
theorem graphAt_forget (hne : other ≠ st) (htables : s.tables.AgreesOn st t) :
    ({ s with tables := t, graphs := s.graphs.filter (!·.1.alike (.int other)) } : Session).graphAt
      st = s.graphAt st := by
  have hfind : (s.graphs.filter (!·.1.alike (.int other))).find? (·.1.alike (.int st)) =
      s.graphs.find? (·.1.alike (.int st)) := by
    rw [List.find?_filter]
    congr 1
    funext g
    cases hst : g.1.alike (.int st) with
    | false => simp
    | true =>
        have hother : g.1.alike (.int other) = false := by
          by_contra halike
          exact hne (Value.eq_of_alike_int (by simpa using halike) hst)
        simp [hother]
  rw [graphAt, graphAt]
  dsimp only
  rw [hfind, htables.graphOf]

theorem orderlyTables_edges (h : OrderlyTables shared left s.tables)
    (hchange : EdgeChange other s.tables t) :
    OrderlyTables shared left t := by
  have hframe := hchange.frame h.edges
  refine ⟨hframe.keyed, ?_, ?_⟩
  all_goals rw [hframe.rest]
  · exact h.assignments
  · exact h.rules

/-- A change of the hierarchy of a store leaves the other stores untouched. -/
theorem orderly_afterEdges (h : Orderly shared (left + 1) s m) (cached : Bool)
    (hchange : EdgeChange other s.tables t) :
    ∃ m', Orderly shared left (afterEdges cached other t s) m' ∧
      ∀ st, other ≠ st → Untouched st s m (afterEdges cached other t s) m' := by
  have htwins : ∀ st, other ≠ st → ∀ c records, Twins st s
      { s with
        tables := t
        graphs := s.graphs.filter (!·.1.alike (.int other))
        cache := c
        records := records } := by
    intro st hne c records
    have htables := hchange.agreesOn h.tables.edges hne
    exact ⟨rfl, htables, graphAt_forget hne htables⟩
  have h₁ := h.mono (Nat.le_succ left)
  have htables := orderlyTables_edges h₁.tables hchange
  unfold afterEdges hierarchyChanged
  cases cached with
  | false =>
      exact ⟨m, ⟨h₁.represents, h₁.seeds, h₁.holds, htables, h₁.saved⟩,
        fun st hne => ⟨htwins st hne s.cache s.records, rfl, rfl, fun _ _ => rfl⟩⟩
  | true =>
      obtain ⟨n, hstands, c, hrun, hsteady, hrep⟩ :=
        yields_bumpStoreEpoch h.represents other (h.holds.epoch other) (fun n hn => h.room hn)
          h.countable
      have hholds :=
        h₁.holds.set (k := .epoch other) (t := none) ⟨n + 1, rfl, (h.room hstands).next⟩
        fun u st e heq => by cases heq
      simp only [outcome_bind, outcome_modifyThe, andThen_ok, if_true, outcome_onCache, hrun,
        outcome_pure]
      refine ⟨_,
        ⟨hrep, fun k hk => h₁.seeds k (hsteady.isSeed hk), hsteady.space ▸ hholds, htables,
         h₁.saved⟩,
        fun st hne => ⟨htwins st hne _ _, hsteady.space, ?_, fun u e => ?_⟩⟩
      · rw [View.set_text rfl, if_neg (by simpa using hne.symm)]
      · rw [View.set_text rfl, if_neg (by simp)]

theorem orderly_hierarchyCall (h : Orderly shared (left + 1) s m) (cached : Bool)
    (call : HierarchyCall) :
    ∃ m', Orderly shared left (afterHierarchyCall cached call s) m' ∧
      ∀ st, call.store ≠ st → Untouched st s m (afterHierarchyCall cached call s) m' := by
  rcases step_hierarchyCall cached call s with hnoted | ⟨t, hchange, hnoted⟩
  · exact ⟨m, orderly_noted (h.mono (Nat.le_succ left)) hnoted, fun st _ => hnoted.untouched m⟩
  · obtain ⟨m', h', huntouched⟩ := orderly_afterEdges h cached hchange
    exact ⟨m', orderly_noted h' hnoted,
      fun st hne => (huntouched st hne).trans (hnoted.untouched m')⟩

theorem truth_hierarchyCall (hs : TrueGraphs s) (hedges : Table.edges.Keyed s.tables.edges)
    (cached : Bool) (call : HierarchyCall) : TrueGraphs (afterHierarchyCall cached call s) := by
  rcases step_hierarchyCall cached call s with hnoted | ⟨t, hchange, hnoted⟩
  · exact hnoted.truth hs
  · refine hnoted.truth ?_
    obtain ⟨c, records, hafter, -⟩ := afterEdges_eq cached call.store t s
    rw [hafter]
    intro kept hkept
    obtain ⟨hmem, halike⟩ := List.mem_filter.mp hkept
    obtain ⟨st, hfits, rfl⟩ := hs kept hmem
    have hne : call.store ≠ st := by
      rintro rfl
      simp [Value.alike_int] at halike
    exact ⟨st, hfits, by rw [(hchange.agreesOn hedges hne).graphOf]⟩

/-! ### Assignments -/

theorem AssignmentChange.edges {user : ℤ} (h : AssignmentChange user other t t') :
    t'.edges = t.edges := by
  cases h with
  | added row _ _ _ hinsert =>
      obtain ⟨-, rfl⟩ := Table.insert_eq_ok _ hinsert
      rfl
  | removed => rfl
  | switched => rfl

theorem orderlyTables_assignments {user : ℤ} (h : OrderlyTables shared left s.tables)
    (hchange : AssignmentChange user other s.tables t) : OrderlyTables shared left t := by
  have hframe := hchange.frame h.assignments
  refine ⟨?_, hframe.keyed, ?_⟩
  all_goals rw [hframe.rest]
  · exact h.edges
  · exact h.rules

/-- A change of the assignments in a store leaves the other stores untouched. -/
theorem orderly_afterAssignments {user : ℤ} (h : Orderly shared left s m) (cached : Bool)
    (hchange : AssignmentChange user other s.tables t) :
    ∃ m', Orderly shared left (afterAssignments cached user other t s) m' ∧
      ∀ st, other ≠ st → Untouched st s m (afterAssignments cached user other t s) m' := by
  have htwins : ∀ st, other ≠ st → ∀ c records, Twins st s
      { s with tables := t, cache := c, records := records } := by
    intro st hne c records
    have htables := hchange.agreesOn h.tables.assignments hne
    exact ⟨rfl, htables, by rw [graphAt, graphAt, htables.graphOf]⟩
  have htables := orderlyTables_assignments h.tables hchange
  unfold afterAssignments forgetUser
  cases cached with
  | false =>
      exact ⟨m, ⟨h.represents, h.seeds, h.holds, htables, h.saved⟩,
        fun st hne => ⟨htwins st hne s.cache s.records, rfl, rfl, fun _ _ => rfl⟩⟩
  | true =>
      obtain ⟨n, hstands, hkey⟩ :=
        yields_currentPermissionsKey h.represents user other (h.holds.epoch other) h.countable
      obtain ⟨c, hrun, hsteady, hrep⟩ := yields_invalidateUserStore hkey
      have hderived : ∀ k ∈ [Key.permissions user other n, Key.allStores user],
          k.isDerived = true := by
        simp [Key.isDerived]
      have hholds := (h.holds.set (k := .epoch other) (t := none) ⟨n, rfl, h.room hstands⟩
        fun u st e heq => by cases heq).without hderived (by simp)
      simp only [if_true, outcome_onCache, hrun]
      refine ⟨_,
        ⟨hrep, fun k hk => h.seeds k (hsteady.isSeed hk), hsteady.space ▸ hholds, htables, h.saved⟩,
        fun st hne => ⟨htwins st hne _ _, hsteady.space, ?_, fun u e => ?_⟩⟩
      · rw [View.without_text hderived, if_neg (by simp), View.set_text rfl,
          if_neg (by simpa using hne.symm)]
      · rw [View.without_text hderived, if_neg (by simp [hne.symm]), View.set_text rfl,
          if_neg (by simp)]

theorem orderly_assignmentCall (h : Orderly shared left s m) (cached : Bool)
    (call : AssignmentCall) :
    ∃ m', Orderly shared left (afterAssignmentCall cached call s) m' ∧
      ∀ st, st ∉ call.stores → Untouched st s m (afterAssignmentCall cached call s) m' := by
  have hsteps := stepsIn_assignmentCall cached call s
  generalize afterAssignmentCall cached call s = s' at hsteps
  induction hsteps with
  | refl => exact ⟨m, h, fun st _ => untouched_refl st s m⟩
  | tail _ hstep ih =>
      obtain ⟨store, hmem, hstep⟩ := hstep
      obtain ⟨m₁, h₁, huntouched⟩ := ih
      rcases hstep with hnoted | ⟨t, hchange, hnoted⟩
      · exact ⟨m₁, orderly_noted h₁ hnoted,
          fun st hst => (huntouched st hst).trans (hnoted.untouched m₁)⟩
      · obtain ⟨m₂, h₂, huntouched'⟩ := orderly_afterAssignments h₁ cached hchange
        refine ⟨m₂, orderly_noted h₂ hnoted, fun st hst => ?_⟩
        have hne : store ≠ st := fun heq => hst (heq ▸ hmem)
        exact ((huntouched st hst).trans (huntouched' st hne)).trans (hnoted.untouched m₂)

theorem TrueGraphs.congr (hs : TrueGraphs s) (hgraphs : s'.graphs = s.graphs)
    (hedges : s'.tables.edges = s.tables.edges) :
    TrueGraphs s' := by
  intro kept hkept
  rw [hgraphs] at hkept
  obtain ⟨st, hfits, rfl⟩ := hs kept hkept
  refine ⟨st, hfits, ?_⟩
  rw [Tables.graphOf, Tables.graphOf, Tables.activeEdges, Tables.activeEdges, hedges]

theorem truth_assignmentCall (hs : TrueGraphs s) (cached : Bool) (call : AssignmentCall) :
    TrueGraphs (afterAssignmentCall cached call s) := by
  have hsteps := stepsIn_assignmentCall cached call s
  generalize afterAssignmentCall cached call s = s' at hsteps
  induction hsteps with
  | refl => exact hs
  | tail _ hstep ih =>
      obtain ⟨store, -, hnoted | ⟨t, hchange, hnoted⟩⟩ := hstep
      · exact hnoted.truth ih
      · refine hnoted.truth (ih.congr ?_ ?_)
        · unfold afterAssignments forgetUser
          cases cached <;> rfl
        · have hedges : t.edges = _ := hchange.edges
          unfold afterAssignments forgetUser
          cases cached <;> exact hedges

/-! ### Rules -/

theorem orderly_ruleStep (h : Orderly shared (left + 1) s m) (hstep : RuleStep s s') :
    ∃ m', Orderly shared left s' m' := by
  have h₁ := h.mono (Nat.le_succ left)
  rcases hstep with hnoted | ⟨t, hwrite, hnoted⟩
  · exact ⟨m, orderly_noted h₁ hnoted⟩
  · have hrest := hwrite.change.rest
    have htables : OrderlyTables shared left t := by
      refine ⟨?_, ?_, h.tables.rules.change (h.seeds 0 (.inr rfl)) hwrite.change⟩
      all_goals rw [hrest]
      · exact h₁.tables.edges
      · exact h₁.tables.assignments
    obtain ⟨n, hstands, -, c, hrun, hsteady, hrep⟩ := h.counting.bump
    have hholds :=
      h₁.holds.set (k := .version) (t := none) ⟨n + 1, rfl, (h.counting.room hstands).next⟩
      fun u st e heq => by cases heq
    refine ⟨m.set (Key.version.text s.cache.space) (.int (n + 1)) none, orderly_noted ?_ hnoted⟩
    unfold afterRules
    rw [outcome_onCache, hrun]
    exact ⟨hrep, fun k hk => h₁.seeds k (hsteady.isSeed hk), hsteady.space ▸ hholds, htables,
      h₁.saved⟩

theorem orderly_rulePath {k : ℕ} (hpath : RulePath k s s') (h : Orderly shared (left + k) s m) :
    ∃ m', Orderly shared left s' m' := by
  induction hpath generalizing m with
  | refl k s => exact ⟨m, h.mono (Nat.le_add_right left k)⟩
  | head hstep _ ih =>
      obtain ⟨m₁, h₁⟩ := orderly_ruleStep h hstep
      exact ih h₁

theorem truth_rulePath {k : ℕ} (hpath : RulePath k s s') (hs : TrueGraphs s) : TrueGraphs s' := by
  induction hpath with
  | refl k s => exact hs
  | head hstep _ ih =>
      refine ih ?_
      rcases hstep with hnoted | ⟨t, hwrite, hnoted⟩
      · exact hnoted.truth hs
      · refine hnoted.truth (hs.congr ?_ ?_)
        · unfold afterRules
          rfl
        · unfold afterRules
          have hedges : t.edges = _ := congrArg Tables.edges hwrite.change.rest
          exact hedges

/-! ### Time -/

theorem orderly_advance (h : Orderly shared left s m) (seconds : ℕ) :
    Orderly shared left (s.advance seconds) (m.fade (s.cache.clock + seconds)) where
  represents := represents_advance h.represents (Int.natCast_nonneg seconds)
  seeds := h.seeds
  holds := h.holds.fade _
  tables := h.tables
  saved := h.saved

end Session
end AccessControl
