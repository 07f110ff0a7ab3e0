import AccessControl.Proofs.Hierarchy.Forest
import AccessControl.Proofs.Session.Standing
import Mathlib

/-! # The hierarchy of a store as trees

The answer to a question about the hierarchy of a store is that of the trees of its active edges,
and tells these trees (`treeValues_injective`).  Over any edges, the walk that makes them ends, and
they show no edge twice; and after the moves of a session that began without edges they show every
edge (`hierarchyTree_shows`). -/

namespace AccessControl
namespace Session

open Database

variable {shared : Bool} {s : Session} {moves : List Move} {t : Tables} {st : ℤ}

/-! ### Trees as values -/

mutual
theorem treeValue_injective :
    ∀ {tree tree' : RoleGraph.Tree ℤ}, treeValue t tree = treeValue t tree' → tree = tree'
  | .node role children, .node role' children', h => by
      rw [treeValue, treeValue] at h
      simp only [Value.object.injEq, List.cons.injEq, Prod.mk.injEq, Value.int.injEq,
        Value.list.injEq, true_and, and_true] at h
      obtain ⟨rfl, -, -, hchildren⟩ := h
      rw [treeValues_injective hchildren]
/-- Trees are told from how they are shown. -/
theorem treeValues_injective : ∀ {trees trees' : List (RoleGraph.Tree ℤ)},
    treeValues t trees = treeValues t trees' → trees = trees'
  | [], [], _ => rfl
  | [], _ :: _, h => by simp [treeValues] at h
  | _ :: _, [], h => by simp [treeValues] at h
  | tree :: trees, tree' :: trees', h => by
      rw [treeValues, treeValues, List.cons.injEq] at h
      rw [treeValue_injective h.1, treeValues_injective h.2]
end

/-- The hierarchy of a store is shown as these trees and as no others. -/
def ShowsTrees (s : Session) (st : ℤ) (trees : List (RoleGraph.Tree ℤ)) : Prop :=
  ∀ trees', (outcome (hierarchyTree (.int st)) s).1 = .ok (treeValues s.tables trees') ↔
    trees' = trees

theorem showsTrees_forest (hs : TrueGraphs s) (hst : fits st) :
    s.ShowsTrees st (s.tables.graphOf st).forest := by
  have hanswer :
      (outcome (hierarchyTree (.int st)) s).1 =
      .ok (treeValues s.tables (s.tables.graphOf st).forest) := by
    obtain ⟨hgraph, hlooks⟩ := graph_spec st s
    rw [hs.graphAt, if_pos hst] at hgraph
    unfold hierarchyTree
    rw [outcome_bind]
    generalize outcome (graph (.int st)) s = first at hgraph hlooks
    obtain ⟨result, s₁⟩ := first
    obtain rfl : result = .ok (s.tables.graphOf st) := hgraph
    rw [← hlooks.tables]
    rfl
  intro trees
  rw [hanswer, Except.ok.injEq]
  exact ⟨fun h => (treeValues_injective h).symm, fun h => by rw [h]⟩

/-! ### What is shown -/

theorem traces_graphOf (t : Tables) (st : ℤ) :
    RoleGraph.Tree.Traces (t.Manages st) (t.graphOf st).forest := by
  rw [← manages_graphOf_eq]
  exact RoleGraph.traces_forest (RoleGraph.wellFormed_ofEdges _) (RoleGraph.simple_ofEdges _)

theorem shows_graphOf (ht : t.SoundEdges) (st : ℤ) :
    RoleGraph.Tree.Shows (t.Manages st) (t.graphOf st).forest := by
  rw [← manages_graphOf_eq]
  refine RoleGraph.shows_forest (RoleGraph.wellFormed_ofEdges _) (RoleGraph.simple_ofEdges _)
    (acyclic_graphOf ht st) ?_
  intro a ha
  rcases RoleGraph.ends_ofEdges _ a ha with ⟨b, hab⟩ | ⟨b, hba⟩
  · exact .inl ⟨b, (RoleGraph.manages_ofEdges _ a b).mpr hab⟩
  · exact .inr ⟨b, (RoleGraph.manages_ofEdges _ b a).mpr hba⟩

/-- After any moves of a session that began without edges, and is begun anew when changes were given
up, the trees of a store show each active edge once and nothing else, with all roles that it joins;
their tops are the roles that manage others and that nobody manages, and no role is unfolded twice.
Over any edges, with cycles or without, the walk over these roles comes to an end, with the trees
that are shown, and no edge is shown twice. -/
theorem hierarchyTree_shows :
    (∀ (shared : Bool) (s : Session) (moves : List Move), Unlinked shared s moves → Renewed moves →
      ∀ st, fits st →
      ∃ trees, (s.afterMoves moves).ShowsTrees st trees ∧
        RoleGraph.Tree.Shows ((s.afterMoves moves).tables.Manages st) trees) ∧
    ∀ s : Session, TrueGraphs s → ∀ st, fits st →
      ∃ trees expanded, s.ShowsTrees st trees ∧
        (∀ trees' expanded',
          (s.tables.graphOf st).Unfolds [] (s.tables.graphOf st).roots trees' expanded' ↔
          trees' = trees ∧ expanded' = expanded) ∧
        RoleGraph.Tree.Traces (s.tables.Manages st) trees := by
  constructor
  · intro shared s moves hs hrenewed st hst
    have h : (s.afterMoves moves).Reliable := hs.reliable hrenewed
    exact ⟨_, showsTrees_forest h.truth hst, shows_graphOf h.sound st⟩
  · intro s hs st hst
    obtain ⟨expanded, hwalk⟩ :=
      RoleGraph.unfolds_forest (RoleGraph.wellFormed_ofEdges _ : (s.tables.graphOf st).WellFormed)
    refine ⟨_, expanded, showsTrees_forest hs hst, fun trees' expanded' => ⟨hwalk.unique, ?_⟩,
      traces_graphOf s.tables st⟩
    rintro ⟨rfl, rfl⟩
    exact hwalk

/-- The head is put above the lead and above the staff, and the lead above the staff. -/
def diamond : List Move :=
  [.hierarchy (.add 1 2 1 .null true), .hierarchy (.add 1 3 1 .null true),
   .hierarchy (.add 2 3 1 .null true)]

/-- The lead and the staff stand above each other. -/
def looped : Session :=
  { threeRoles with
    tables := { threeRoles.tables with
      edges := [⟨1, 1, 2, 1, .null, true⟩, ⟨2, 2, 3, 1, .null, true⟩, ⟨3, 3, 2, 1, .null, true⟩] } }

set_option maxRecDepth 4000 in
theorem hierarchyTree_shows_diamond :
    RoleGraph.Tree.Shows ((threeRoles.afterMoves diamond).tables.Manages 1)
      [.node 1 [.node 2 [.node 3 []], .node 3 []]] ∧
      RoleGraph.Tree.Traces (looped.tables.Manages 1)
        [.node 1 [.node 2 [.node 3 [.node 2 []]]]] := by
  constructor
  · have hunlinked : Unlinked false threeRoles diamond :=
      unlinked_threeRoles (by simp [diamond, Move.Delivered])
    have hrenewed : Renewed diamond := renewed_of_forall (by simp [diamond])
    obtain ⟨trees, htrees, hshows⟩ :=
      hierarchyTree_shows.1 false threeRoles diamond hunlinked hrenewed 1 (by decide)
    have hanswer : (outcome (hierarchyTree (.int 1)) (threeRoles.afterMoves diamond)).1 =
        .ok (treeValues (threeRoles.afterMoves diamond).tables
          [.node 1 [.node 2 [.node 3 []], .node 3 []]]) := by cbv
    rwa [(htrees _).mp hanswer]
  · have htruth : TrueGraphs looped := fun kept hkept => absurd hkept List.not_mem_nil
    obtain ⟨trees, expanded, htrees, -, htraces⟩ :=
      hierarchyTree_shows.2 looped htruth 1 (by decide)
    have hanswer : (outcome (hierarchyTree (.int 1)) looped).1 =
        .ok (treeValues looped.tables [.node 1 [.node 2 [.node 3 [.node 2 []]]]]) := by cbv
    rwa [(htrees _).mp hanswer]

end Session
end AccessControl
