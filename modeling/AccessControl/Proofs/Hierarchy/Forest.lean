import AccessControl.Proofs.Hierarchy.Ranks
import Mathlib

/-! # The trees of a graph

The trees below the roots are made by a walk that unfolds a role where it meets it first,
and shows it without children wherever it meets it again.  `Unfolds` tells this walk without
a bound on its depth; it ends on every graph, and the trees of the graph are those that it
makes (`unfolds_forest`).

Each row of the trees is that of a role when it is unfolded, with all roles that it manages, or
shows a role again (`Unfolds.rows`).  So no edge is shown twice on any graph (`traces_forest`), and
in an acyclic graph, where every role stands below a root, every edge is shown (`shows_forest`). -/

namespace AccessControl
namespace RoleGraph

/-! ### What trees show -/

namespace Tree

variable {α : Type}

/-- The role at the top of a tree. -/
def role : Tree α → α
  | .node role _ => role

mutual
/-- The roles of a tree from the top down, each with the roles right below it. -/
def rows : Tree α → List (α × List α)
  | .node role children => (role, children.map Tree.role) :: rowsAll children
/-- The roles of some trees, each with the roles right below it. -/
def rowsAll : List (Tree α) → List (α × List α)
  | [] => []
  | tree :: trees => rows tree ++ rowsAll trees
end

/-- The roles that trees show, as often as they show them. -/
def shown (trees : List (Tree α)) : List α := (rowsAll trees).map (·.1)

/-- The pairs of a role and one right below it that trees show, as often as they show them. -/
def pairs (trees : List (Tree α)) : List (α × α) :=
  (rowsAll trees).flatMap fun row => row.2.map (row.1, ·)

/-- The roles that trees show with others below them, as often as they do so. -/
def opened (trees : List (Tree α)) : List α := ((rowsAll trees).filter (!·.2.isEmpty)).map (·.1)

/-- Trees that show edges only, none of them twice.  At their tops are the roles with edges from
them but none to them, each once, and no role is shown twice with others below it. -/
structure Traces (edge : α → α → Prop) (trees : List (Tree α)) : Prop where
  edges : ∀ a b, (a, b) ∈ pairs trees → edge a b
  once : (pairs trees).Nodup
  tops : (trees.map role).Nodup
  top_iff : ∀ a, a ∈ trees.map role ↔ (∃ b, edge a b) ∧ ∀ b, ¬ edge b a
  opened : (opened trees).Nodup

/-- Trees that show every edge, once, and every role with an edge. -/
structure Shows (edge : α → α → Prop) (trees : List (Tree α)) : Prop extends Traces edge trees where
  complete : ∀ a b, edge a b → (a, b) ∈ pairs trees
  roles : ∀ a b, edge a b → a ∈ shown trees ∧ b ∈ shown trees

end Tree

theorem perm_gathered {α : Type} (row : α) (fresh again fresh' again' : List α) :
    (row :: ((fresh ++ again) ++ (fresh' ++ again'))).Perm
      (((fresh' ++ fresh) ++ [row]) ++ (again ++ again')) := by
  classical
  refine List.perm_iff_count.mpr fun row' => ?_
  simp only [List.count_append, List.count_cons, List.count_nil]
  omega

variable {α : Type} [BEq α] {g : RoleGraph α} {expanded expanded' roles : List α}
  {trees : List (Tree α)}

/-! ### The walk -/

/-- The walk over some roles that makes their trees, from the roles that were unfolded before to
those that are unfolded afterwards. -/
inductive Unfolds (g : RoleGraph α) : List α → List α → List (Tree α) → List α → Prop
  | done (expanded : List α) : Unfolds g expanded [] [] expanded
  | again {expanded expanded' roles : List α} {role : α} {trees : List (Tree α)}
      (hold : role ∈ expanded)
      (hrest : Unfolds g expanded roles trees expanded') :
      Unfolds g expanded (role :: roles) (.node role [] :: trees) expanded'
  | opened {expanded expanded₁ expanded₂ roles : List α} {role : α} {below trees : List (Tree α)}
      (hnew : role ∉ expanded)
      (hbelow : Unfolds g (role :: expanded) (g.children role) below expanded₁)
      (hrest : Unfolds g expanded₁ roles trees expanded₂) :
      Unfolds g expanded (role :: roles) (.node role below :: trees) expanded₂

namespace Unfolds

/-- A walk makes one result. -/
theorem unique (h : g.Unfolds expanded roles trees expanded') {trees' : List (Tree α)}
    {expanded'' : List α} (h' : g.Unfolds expanded roles trees' expanded'') :
    trees' = trees ∧ expanded'' = expanded' := by
  induction h generalizing trees' expanded'' with
  | done expanded =>
      cases h'
      exact ⟨rfl, rfl⟩
  | again hold hrest ih =>
      cases h' with
      | again _ hrest' =>
          obtain ⟨rfl, rfl⟩ := ih hrest'
          exact ⟨rfl, rfl⟩
      | opened hnew _ _ => exact absurd hold hnew
  | opened hnew hbelow hrest ihBelow ihRest =>
      cases h' with
      | again hold _ => exact absurd hold hnew
      | opened _ hbelow' hrest' =>
          obtain ⟨rfl, rfl⟩ := ihBelow hbelow'
          obtain ⟨rfl, rfl⟩ := ihRest hrest'
          exact ⟨rfl, rfl⟩

theorem map_role (h : g.Unfolds expanded roles trees expanded') : trees.map Tree.role = roles := by
  induction h with
  | done expanded => rfl
  | again hold hrest ih => rw [List.map_cons, ih, Tree.role]
  | opened hnew hbelow hrest ihBelow ihRest => rw [List.map_cons, ihRest, Tree.role]

theorem kept (h : g.Unfolds expanded roles trees expanded') : expanded ⊆ expanded' := by
  induction h with
  | done expanded => exact fun _ ha => ha
  | again hold hrest ih => exact ih
  | opened hnew hbelow hrest ihBelow ihRest =>
      exact fun a ha => ihRest (ihBelow (List.mem_cons_of_mem _ ha))

theorem met (h : g.Unfolds expanded roles trees expanded') : roles ⊆ expanded' := by
  induction h with
  | done expanded => exact List.nil_subset _
  | again hold hrest ih => exact List.cons_subset.mpr ⟨hrest.kept hold, ih⟩
  | opened hnew hbelow hrest ihBelow ihRest =>
      exact List.cons_subset.mpr ⟨hrest.kept (hbelow.kept List.mem_cons_self), ihRest⟩

theorem nodup (h : g.Unfolds expanded roles trees expanded') (hexpanded : expanded.Nodup) :
    expanded'.Nodup := by
  induction h with
  | done expanded => exact hexpanded
  | again hold hrest ih => exact ih hexpanded
  | opened hnew hbelow hrest ihBelow ihRest =>
      exact ihRest (ihBelow (List.nodup_cons.mpr ⟨hnew, hexpanded⟩))

theorem subset_nodes (h : g.Unfolds expanded roles trees expanded') (hg : g.WellFormed)
    (hexpanded : expanded ⊆ g.nodes) (hroles : roles ⊆ g.nodes) : expanded' ⊆ g.nodes := by
  induction h with
  | done expanded => exact hexpanded
  | again hold hrest ih => exact ih hexpanded (List.cons_subset.mp hroles).2
  | opened hnew hbelow hrest ihBelow ihRest =>
      obtain ⟨hrole, hroles⟩ := List.cons_subset.mp hroles
      exact ihRest (ihBelow (List.cons_subset.mpr ⟨hrole, hexpanded⟩) fun b hb =>
        hg.children_mem _ b hb) hroles

/-- What an unfolded role manages is unfolded. -/
theorem closed (h : g.Unfolds expanded roles trees expanded') {a b : α} (ha : a ∈ expanded')
    (hab : g.Manages a b) :
    a ∈ expanded ∨ b ∈ expanded' := by
  induction h with
  | done expanded => exact .inl ha
  | again hold hrest ih => exact ih ha
  | opened hnew hbelow hrest ihBelow ihRest =>
      rcases ihRest ha with ha | hb
      · rcases ihBelow ha with ha | hb
        · rcases List.mem_cons.mp ha with rfl | ha
          · exact .inr (hrest.kept (hbelow.met hab))
          · exact .inl ha
        · exact .inr (hrest.kept hb)
      · exact .inr hb

/-- Each row of the trees is that of a role when it is unfolded, or shows a role again. -/
theorem rows (h : g.Unfolds expanded roles trees expanded') :
    ∃ fresh again : List α, expanded' = fresh ++ expanded ∧
    (Tree.rowsAll trees).Perm (fresh.map (fun a => (a, g.children a)) ++ again.map fun a =>
      (a, [])) := by
  induction h with
  | done expanded => exact ⟨[], [], rfl, .nil⟩
  | @again expanded expanded' roles role trees hold hrest ih =>
      obtain ⟨fresh, again, rfl, hperm⟩ := ih
      refine ⟨fresh, role :: again, rfl, ?_⟩
      have hrows : Tree.rowsAll (.node role [] :: trees) = (role, []) :: Tree.rowsAll trees := rfl
      rw [hrows, List.map_cons]
      exact (hperm.cons _).trans List.perm_middle.symm
  | @opened expanded expanded₁ expanded₂ roles role below trees hnew hbelow hrest ihBelow ihRest =>
      obtain ⟨freshBelow, againBelow, rfl, hpermBelow⟩ := ihBelow
      obtain ⟨freshRest, againRest, rfl, hpermRest⟩ := ihRest
      refine ⟨freshRest ++ freshBelow ++ [role], againBelow ++ againRest, by simp, ?_⟩
      have hrows : Tree.rowsAll (.node role below :: trees) =
          (role, g.children role) :: (Tree.rowsAll below ++ Tree.rowsAll trees) := by
        rw [← hbelow.map_role]
        rfl
      rw [hrows]
      refine ((hpermBelow.append hpermRest).cons _).trans ?_
      simp only [List.map_append, List.map_cons, List.map_nil]
      exact perm_gathered _ _ _ _ _

/-! ### What a whole walk shows -/

theorem pairs_perm (h : g.Unfolds [] roles trees expanded) :
    (Tree.pairs trees).Perm (expanded.flatMap fun a => (g.children a).map (a, ·)) := by
  obtain ⟨fresh, again, rfl, hperm⟩ := h.rows
  refine (hperm.flatMap_right _).trans ?_
  have hagain : (again.map fun a => (a, ([] : List α))).flatMap (fun row => row.2.map (row.1, ·)) =
      [] := by
    simp [List.flatMap_map]
  rw [List.flatMap_append, hagain, List.append_nil, List.append_nil, List.flatMap_map]

theorem mem_shown (h : g.Unfolds [] roles trees expanded) {a : α} (ha : a ∈ expanded) :
    a ∈ Tree.shown trees := by
  obtain ⟨fresh, again, rfl, hperm⟩ := h.rows
  rw [List.append_nil] at ha
  have hrow : (a, g.children a) ∈ Tree.rowsAll trees :=
    hperm.mem_iff.mpr (List.mem_append_left _ (List.mem_map_of_mem ha))
  exact List.mem_map_of_mem hrow

theorem nodup_opened (h : g.Unfolds [] roles trees expanded) : (Tree.opened trees).Nodup := by
  have hexpanded := h.nodup List.nodup_nil
  obtain ⟨fresh, again, rfl, hperm⟩ := h.rows
  have hagain : (again.map fun a => (a, ([] : List α))).filter (!·.2.isEmpty) = [] := by
    simp [List.filter_map]
  have hopened :
      (Tree.opened trees).Perm
      (((fresh.map fun a => (a, g.children a)).filter (!·.2.isEmpty)).map (·.1)) := by
    have hfiltered := (hperm.filter (!·.2.isEmpty)).map (·.1)
    rwa [List.filter_append, hagain, List.append_nil] at hfiltered
  refine hopened.nodup_iff.mpr ?_
  rw [List.filter_map, List.map_map]
  have hid : ((fun row : α × List α => row.1) ∘ fun a => (a, g.children a)) = id := rfl
  rw [hid, List.map_id]
  exact ((List.append_nil fresh) ▸ hexpanded).filter _

end Unfolds

/-! ### Roots and children -/

section wellFormed

variable [LawfulBEq α]

/-- The roots are the roles that manage others and that nobody manages. -/
theorem mem_roots {a : α} : a ∈ g.roots ↔ (∃ b, g.Manages a b) ∧ ∀ b, ¬ g.Manages b a := by
  have hchildren : (!(g.children a).isEmpty) = true ↔ ∃ b, g.Manages a b := by
    rw [Bool.not_eq_true', List.isEmpty_eq_false_iff_exists_mem]
    rfl
  have hmanaged : (!(g.nodes.any fun b => g.hasEdge b a)) = true ↔ ∀ b, ¬ g.Manages b a := by
    rw [Bool.not_eq_true', List.any_eq_false]
    refine ⟨fun hnone b hb => hnone b (mem_nodes_of_manages hb) ?_, fun hnone b _ hb => hnone b ?_⟩
    · exact List.contains_iff_mem.mpr hb
    · exact List.contains_iff_mem.mp hb
  rw [roots, List.mem_filter, Bool.and_eq_true, hchildren, hmanaged]
  exact ⟨And.right, fun h => ⟨h.1.elim fun b hb => mem_nodes_of_manages hb, h⟩⟩

/-- No role is managed twice by the same one. -/
def Simple (g : RoleGraph α) : Prop := ∀ a, (g.children a).Nodup

theorem simple_addEdge (h : g.Simple) (higher lower : α) : (g.addEdge higher lower).Simple := by
  intro a
  have hkey : ∀ entry : α × List α, (if entry.1 == higher && !entry.2.contains lower then
      (entry.1, entry.2 ++ [lower]) else entry).1 = entry.1 := by
    intro entry
    split <;> rfl
  have hnode : ((g.addNode higher).children a).Nodup := by
    rw [children_addNode]
    exact h a
  rw [addEdge, children_addNode, addChild, children, lookup_map_values _ hkey]
  rw [children] at hnode
  cases hbelow : (g.addNode higher).adjacency.lookup a with
  | none => exact List.nodup_nil
  | some below =>
      rw [hbelow, Option.getD_some] at hnode
      rw [Option.map_some, Option.getD_some]
      split
      · next hnew =>
          have hlower : lower ∉ below := by simpa using (Bool.and_eq_true _ _ |>.mp hnew).2
          exact List.nodup_append.mpr ⟨hnode, List.nodup_singleton lower, fun b hb c hc => by
            rintro rfl
            exact hlower (List.mem_singleton.mp hc ▸ hb)⟩
      · exact hnode

theorem simple_ofEdges (edges : List (α × α)) : (ofEdges edges).Simple := by
  refine List.foldlRecOn (motive := Simple) edges _ (fun a => List.nodup_nil) ?_
  exact fun g hg edge _ => simple_addEdge hg edge.1 edge.2

theorem ends_ofEdges (edges : List (α × α)) :
    ∀ a ∈ (ofEdges edges).nodes, (∃ b, (a, b) ∈ edges) ∨ ∃ b, (b, a) ∈ edges := by
  refine List.foldlRecOn (motive := fun g : RoleGraph α => ∀ a ∈ g.nodes, (∃ b, (a, b) ∈ edges) ∨
    ∃ b, (b, a) ∈ edges)
    edges _ (fun a ha => absurd ha List.not_mem_nil) ?_
  intro g hg edge hedge a ha
  rcases (mem_nodes_addEdge g edge.1 edge.2 a).mp ha with ha | rfl | rfl
  · exact hg a ha
  · exact .inl ⟨edge.2, hedge⟩
  · exact .inr ⟨edge.1, hedge⟩

/-- In an acyclic graph whose roles are all ends of edges, every role is a root or below one. -/
theorem exists_root (hacyclic : g.Acyclic)
    (hends : ∀ a ∈ g.nodes, (∃ b, g.Manages a b) ∨ ∃ b, g.Manages b a) {a : α} (ha : a ∈ g.nodes) :
    ∃ root ∈ g.roots, Relation.ReflTransGen g.Manages root a := by
  classical
  -- Of the roles from which the role is reached, one is below none of the others.
  let sources := g.nodes.filter fun b => Relation.ReflTransGen g.Manages b a
  have hmem : ∀ b, b ∈ sources ↔ b ∈ g.nodes ∧ Relation.ReflTransGen g.Manages b a := by
    simp [sources]
  obtain ⟨top, htop, hnone⟩ := exists_top hacyclic (fun a b c => Relation.TransGen.trans)
    (List.ne_nil_of_mem ((hmem a).mpr ⟨ha, .refl⟩))
  have hreach : Relation.ReflTransGen g.Manages top a := ((hmem top).mp htop).2
  have hunmanaged : ∀ b, ¬ g.Manages b top := fun b hb =>
    hnone b ((hmem b).mpr ⟨mem_nodes_of_manages hb, .head hb hreach⟩) (.single hb)
  refine ⟨top, mem_roots.mpr ⟨?_, hunmanaged⟩, hreach⟩
  rcases Relation.ReflTransGen.cases_head hreach with rfl | ⟨b, hb, -⟩
  · exact (hends top ha).resolve_right fun ⟨b, hb⟩ => hunmanaged b hb
  · exact ⟨b, hb⟩

/-! ### The bound on the depth -/

/-- With a bound that is deep enough for the roles that are not yet unfolded, the walk is
the one without a bound. -/
theorem unfolds_unfoldAll (hg : g.WellFormed) (depth : ℕ) (expanded roles : List α)
    (hdepth : g.nodes.length ≤ expanded.length + depth) (hroles : roles ⊆ g.nodes)
    (hexpanded : expanded ⊆ g.nodes) (hdistinct : expanded.Nodup) :
    g.Unfolds expanded roles (g.unfoldAll depth expanded roles).1
      (g.unfoldAll depth expanded roles).2 := by
  induction depth, expanded, roles using RoleGraph.unfoldAll.induct g with
  | case1 depth expanded =>
      rw [unfoldAll.eq_def]
      exact .done expanded
  | case2 depth expanded role roles hmem rest expanded' hrest ih =>
      rw [unfoldAll.eq_def]
      simp only [hmem, if_true]
      exact .again (by simpa using hmem)
        (ih hdepth (List.cons_subset.mp hroles).2 hexpanded hdistinct)
  | case3 expanded role roles hmem =>
      -- The unfolded roles and this one would be more roles than there are.
      have hnew : role ∉ expanded := by simpa using hmem
      have hroom := length_lt_of_new hdistinct hexpanded hnew (List.cons_subset.mp hroles).1
      omega
  | case4 expanded role roles hmem below children expanded₁ hbelow rest expanded₂ hrest ihBelow
      ihRest =>
      have hnew : role ∉ expanded := by simpa using hmem
      obtain ⟨hnode, hroles⟩ := List.cons_subset.mp hroles
      have hfirst : g.Unfolds (role :: expanded) (g.children role) children expanded₁ := by
        have h := ihBelow (by rw [List.length_cons]; omega) (fun b hb => hg.children_mem role b hb)
          (List.cons_subset.mpr ⟨hnode, hexpanded⟩) (List.nodup_cons.mpr ⟨hnew, hdistinct⟩)
        rwa [hbelow] at h
      have hdistinct₁ := hfirst.nodup (List.nodup_cons.mpr ⟨hnew, hdistinct⟩)
      have hexpanded₁ := hfirst.subset_nodes hg (List.cons_subset.mpr ⟨hnode, hexpanded⟩)
        fun b hb => hg.children_mem role b hb
      -- The walk below the role leaves as many levels as it has unfolded roles, and one more.
      have hlength : expanded.length + 1 ≤ expanded₁.length :=
        (List.subperm_of_subset (List.nodup_cons.mpr ⟨hnew, hdistinct⟩) hfirst.kept).length_le
      have hsecond := ihRest (by omega) hroles hexpanded₁ hdistinct₁
      rw [unfoldAll.eq_def]
      simp only [hmem, hbelow]
      exact .opened hnew hfirst hsecond

/-- The walk over the roots ends, and its trees are those of the graph. -/
theorem unfolds_forest (hg : g.WellFormed) :
    ∃ expanded, g.Unfolds [] g.roots g.forest expanded := by
  refine ⟨_,
    unfolds_unfoldAll hg _ [] g.roots (by simp) (fun a ha => (List.mem_filter.mp ha).1)
    (List.nil_subset _) .nil⟩

/-! ### The forest -/

/-- On any graph, the trees show no edge twice and nothing but edges. -/
theorem traces_forest (hg : g.WellFormed) (hsimple : g.Simple) :
    Tree.Traces g.Manages g.forest := by
  obtain ⟨expanded, hwalk⟩ := unfolds_forest hg
  have hpairs := hwalk.pairs_perm
  refine ⟨fun a b hab => ?_, ?_, ?_, fun a => ?_, hwalk.nodup_opened⟩
  · obtain ⟨c, -, hcb⟩ := List.mem_flatMap.mp (hpairs.mem_iff.mp hab)
    obtain ⟨d, hd, hpair⟩ := List.mem_map.mp hcb
    obtain ⟨rfl, rfl⟩ := Prod.mk.inj hpair
    exact hd
  · refine hpairs.nodup_iff.mpr (List.nodup_flatMap.mpr ⟨fun a _ => ?_, ?_⟩)
    · exact (hsimple a).map fun b c hbc => (Prod.mk.inj hbc).2
    · refine (hwalk.nodup .nil).imp fun hne pair h h' => ?_
      obtain ⟨b, -, rfl⟩ := List.mem_map.mp h
      obtain ⟨c, -, hpair⟩ := List.mem_map.mp h'
      exact hne (Prod.mk.inj hpair).1.symm
  · rw [hwalk.map_role]
    exact hg.nodup.filter _
  · rw [hwalk.map_role]
    exact mem_roots

/-- In an acyclic graph whose roles are all ends of edges, the trees show every edge. -/
theorem shows_forest (hg : g.WellFormed) (hsimple : g.Simple) (hacyclic : g.Acyclic)
    (hends : ∀ a ∈ g.nodes, (∃ b, g.Manages a b) ∨ ∃ b, g.Manages b a) :
    Tree.Shows g.Manages g.forest := by
  obtain ⟨expanded, hwalk⟩ := unfolds_forest hg
  have hall : ∀ a ∈ g.nodes, a ∈ expanded := by
    intro a ha
    obtain ⟨root, hroot, hreach⟩ := exists_root hacyclic hends ha
    induction hreach with
    | refl => exact hwalk.met hroot
    | tail _ hbc ih =>
        exact (hwalk.closed (ih (mem_nodes_of_manages hbc)) hbc).resolve_left List.not_mem_nil
  refine ⟨traces_forest hg hsimple, fun a b hab => ?_, fun a b hab => ⟨?_, ?_⟩⟩
  · refine hwalk.pairs_perm.mem_iff.mpr
      (List.mem_flatMap.mpr ⟨a, hall a (mem_nodes_of_manages hab), ?_⟩)
    exact List.mem_map_of_mem hab
  · exact hwalk.mem_shown (hall a (mem_nodes_of_manages hab))
  · exact hwalk.mem_shown (hall b (hg.children_mem a b hab))

end wellFormed

end RoleGraph
end AccessControl
