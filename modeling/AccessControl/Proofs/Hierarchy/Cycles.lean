import AccessControl.Proofs.Hierarchy.Reach
import Mathlib

/-! # The search for cycles

A search that ends without a cycle has cleared its roles one by one, each after all that it manages
(`Layered`), so no path leads from a cleared role back to it.  The search of a whole graph is deep
enough to clear every role: when it finds no cycle, there is none (`acyclic_of_findCycle`). -/

namespace AccessControl
namespace RoleGraph

variable {α : Type} [BEq α]

/-- No path of one edge or more leads from a role back to it. -/
def Acyclic (g : RoleGraph α) : Prop := ∀ a, ¬ Relation.TransGen g.Manages a a

/-- Each role of a list comes after all that it manages; the last one of the list came first. -/
def Layered (g : RoleGraph α) : List α → Prop
  | [] => True
  | role :: roles =>
      role ∉ roles ∧ (∀ below, g.Manages role below → below ∈ roles) ∧ g.Layered roles

variable {g : RoleGraph α}

theorem Layered.closed : ∀ {roles : List α}, g.Layered roles → ∀ a ∈ roles, ∀ b, g.Manages a b →
    b ∈ roles
  | [], _, _, ha => absurd ha List.not_mem_nil
  | role :: roles, ⟨_, hbelow, hlayered⟩, a, ha => fun b hab => by
      rcases List.mem_cons.mp ha with rfl | ha
      · exact List.mem_cons_of_mem a (hbelow b hab)
      · exact List.mem_cons_of_mem role (hlayered.closed a ha b hab)

theorem Layered.mem_of_transGen {roles : List α} (h : g.Layered roles) {a b : α} (ha : a ∈ roles)
    (hab : Relation.TransGen g.Manages a b) : b ∈ roles := by
  induction hab with
  | single hab => exact h.closed a ha _ hab
  | tail _ hbc ih => exact h.closed _ ih _ hbc

theorem Layered.not_transGen : ∀ {roles : List α}, g.Layered roles →
    ∀ a ∈ roles, ¬ Relation.TransGen g.Manages a a
  | [], _, _, ha => absurd ha List.not_mem_nil
  | role :: roles, ⟨hnew, hbelow, hlayered⟩, a, ha => fun hcycle => by
      rcases List.mem_cons.mp ha with rfl | ha
      · -- The first step leads among the roles that were layered before; no path leaves them.
        rcases Relation.TransGen.head'_iff.mp hcycle with ⟨b, hab, hba⟩
        have hb : b ∈ roles := hbelow b hab
        rcases Relation.reflTransGen_iff_eq_or_transGen.mp hba with heq | hba
        · exact hnew (heq ▸ hb)
        · exact hnew (hlayered.mem_of_transGen hb hba)
      · exact hlayered.not_transGen a ha hcycle

omit [BEq α] in
theorem length_lt_of_new {path : List α} {role : α} (hnodup : path.Nodup)
    (hpath : ∀ a ∈ path, a ∈ g.nodes) (hrole : role ∉ path) (hnode : role ∈ g.nodes) :
    path.length < g.nodes.length := by
  have hsub : (role :: path) ⊆ g.nodes := List.forall_mem_cons.mpr ⟨hnode, hpath⟩
  have hlen := (List.subperm_of_subset (List.nodup_cons.mpr ⟨hrole, hnodup⟩) hsub).length_le
  rw [List.length_cons] at hlen
  omega

variable [LawfulBEq α]

/-- A search that finds no cycle clears its roles.  It has to be deep enough for all roles of the
graph that are not yet on its path. -/
theorem layered_of_search (hg : g.WellFormed) (depth : ℕ) (path cleared roles result : List α)
    (hsearch : g.search depth path cleared roles = .ok result)
    (hdepth : g.nodes.length ≤ path.length + depth) (hroles : ∀ a ∈ roles, a ∈ g.nodes)
    (hpath : ∀ a ∈ path, a ∈ g.nodes) (hnodup : path.Nodup) (hlayered : g.Layered cleared)
    (hapart : ∀ a ∈ path, a ∉ cleared) :
    g.Layered result ∧ (∀ a ∈ path, a ∉ result) ∧ (∀ a ∈ cleared, a ∈ result) ∧
      ∀ a ∈ roles, a ∈ result := by
  induction depth, path, cleared, roles using RoleGraph.search.induct g generalizing result with
  | case1 depth path cleared =>
      rw [search.eq_def] at hsearch
      obtain rfl : cleared = result := by simpa using hsearch
      exact ⟨hlayered, hapart, fun _ h => h, fun _ h => absurd h List.not_mem_nil⟩
  | case2 depth path cleared role roles hmem =>
      rw [search.eq_def] at hsearch
      simp only [hmem, if_true, reduceCtorEq] at hsearch
  | case3 depth path cleared role roles hmem hcleared ih =>
      rw [search.eq_def] at hsearch
      simp only [hmem, hcleared, if_true] at hsearch
      have hrole : role ∈ cleared := by simpa using hcleared
      obtain ⟨h1, h2, h3, h4⟩ :=
        ih result hsearch hdepth (fun a ha => hroles a (List.mem_cons_of_mem role ha)) hpath hnodup
          hlayered hapart
      exact ⟨h1, h2, h3, List.forall_mem_cons.mpr ⟨h3 role hrole, h4⟩⟩
  | case4 path cleared role roles hmem hcleared =>
      -- The path and the role would be more roles than there are.
      have hrole : role ∉ path := by simpa using hmem
      have hroom := length_lt_of_new hnodup hpath hrole (hroles role List.mem_cons_self)
      omega
  | case5 path cleared role roles hmem hcleared below cycle hbelow ih =>
      rw [search.eq_def] at hsearch
      simp only [hmem, hcleared, hbelow] at hsearch
      cases hsearch
  | case6 path cleared role roles hmem hcleared below cleared' hbelow ihBelow ihRest =>
      rw [search.eq_def] at hsearch
      simp only [hmem, hcleared, hbelow] at hsearch
      have hrole : role ∉ path := by simpa using hmem
      have hnew : role ∉ cleared := by simpa using hcleared
      have hnode : role ∈ g.nodes := hroles role List.mem_cons_self
      obtain ⟨hlayered', hapart', hkept, hchildren⟩ :=
        ihBelow cleared' hbelow (by rw [List.length_cons]; omega)
        (fun a ha => hg.children_mem role a ha) (List.forall_mem_cons.mpr ⟨hnode, hpath⟩)
        (List.nodup_cons.mpr ⟨hrole, hnodup⟩) hlayered (List.forall_mem_cons.mpr ⟨hnew, hapart⟩)
      obtain ⟨hrole', hapart'⟩ := List.forall_mem_cons.mp hapart'
      obtain ⟨h1, h2, h3, h4⟩ :=
        ihRest result hsearch hdepth (fun a ha => hroles a (List.mem_cons_of_mem role ha))
        hpath hnodup ⟨hrole', hchildren, hlayered'⟩ fun a ha hmem' => by
          rcases List.mem_cons.mp hmem' with rfl | hmem'
          · exact hrole ha
          · exact hapart' a ha hmem'
      exact ⟨h1, h2, fun a ha => h3 a (List.mem_cons_of_mem role (hkept a ha)),
        List.forall_mem_cons.mpr ⟨h3 role List.mem_cons_self, h4⟩⟩

/-- A graph in which no cycle is found has none. -/
theorem acyclic_of_findCycle (hg : g.WellFormed) (h : g.findCycle = none) : g.Acyclic := by
  intro a hcycle
  cases hsearch : g.search (g.nodes.length + 1) [] [] g.nodes with
  | error cycle => simp [findCycle, hsearch] at h
  | ok result =>
      obtain ⟨hlayered, -, -, hall⟩ := layered_of_search hg _ [] [] g.nodes result hsearch
        (by simp) (fun _ h => h) (by simp) .nil trivial (by simp)
      have ha : a ∈ g.nodes := by
        obtain ⟨b, hab, -⟩ := Relation.TransGen.head'_iff.mp hcycle
        exact mem_nodes_of_manages hab
      exact hlayered.not_transGen a (hall a ha) hcycle

end RoleGraph
end AccessControl
