import AccessControl.Proofs.Hierarchy.Reach
import Mathlib

/-! # The roles below a role

A shortest path meets no role twice, and each of its roles but the last manages another one.  So it
has no more edges than the graph has roles (`within_of_steps`), and a search that widens that often
has met everything.  The descendants of a role are then the other roles at the end of a path that is
not longer than the given depth, if a depth is given (`mem_descendants_iff_steps`), on graphs with
cycles through the role as well. -/

namespace AccessControl
namespace RoleGraph

variable {α : Type} [BEq α] {g : RoleGraph α}

/-! ### Shortest paths -/

/-- Paths are put one after the other. -/
theorem steps_add {m : ℕ} (n : ℕ) {a b : α} :
    g.Steps (m + n) a b ↔ ∃ c, g.Steps m a c ∧ g.Steps n c b := by
  induction n generalizing b with
  | zero =>
      constructor
      · exact fun h => ⟨b, h, rfl⟩
      · rintro ⟨c, hac, rfl⟩
        exact hac
  | succ n ih =>
      constructor
      · rintro ⟨d, had, hdb⟩
        obtain ⟨c, hac, hcd⟩ := ih.mp had
        exact ⟨c, hac, d, hcd, hdb⟩
      · rintro ⟨c, hac, d, hcd, hdb⟩
        exact ⟨d, ih.mpr ⟨c, hac, hcd⟩, hdb⟩

theorem one_le_of_steps {n : ℕ} {a b : α} (hne : b ≠ a) (h : g.Steps n a b) : 1 ≤ n := by
  cases n with
  | zero => exact absurd (Eq.symm h) hne
  | succ n => omega

theorem manages_of_steps {n : ℕ} (hn : 0 < n) {a b : α} (h : g.Steps n a b) :
    ∃ c, g.Manages a c := by
  obtain ⟨m, rfl⟩ : ∃ m, n = 1 + m := ⟨n - 1, by omega⟩
  obtain ⟨c, ⟨a', rfl, hac⟩, -⟩ := (steps_add m).mp h
  exact ⟨c, hac⟩

theorem injOn_of_shortest {n : ℕ} {a b : α} (hshort : ∀ k < n, ¬ g.Steps k a b) {visit : ℕ → α}
    (hvisit : ∀ i ≤ n, g.Steps i a (visit i) ∧ g.Steps (n - i) (visit i) b) {i j : ℕ} (hij : i < j)
    (hj : j ≤ n) :
    visit i ≠ visit j := by
  intro hsame
  -- What lies between the two visits could be left out.
  have hcut : g.Steps (i + (n - j)) a b := by
    refine (steps_add (n - j)).mpr ⟨visit i, (hvisit i (by omega)).1, ?_⟩
    rw [hsame]
    exact (hvisit j hj).2
  exact hshort (i + (n - j)) (by omega) hcut

variable [LawfulBEq α]

/-- A shortest path has no more edges than the graph has roles. -/
theorem length_le_of_shortest {n : ℕ} {a b : α} (h : g.Steps n a b)
    (hshort : ∀ k < n, ¬ g.Steps k a b) :
    n ≤ g.nodes.length := by
  have hsplit : ∀ i, ∃ c, i ≤ n → g.Steps i a c ∧ g.Steps (n - i) c b := by
    intro i
    by_cases hi : i ≤ n
    · obtain ⟨c, hc⟩ :=
        (steps_add (n - i)).mp (by rwa [Nat.add_sub_cancel' hi] : g.Steps (i + (n - i)) a b)
      exact ⟨c, fun _ => hc⟩
    · exact ⟨a, fun h => absurd h hi⟩
  choose visit hvisit using hsplit
  have hdistinct : ((List.range n).map visit).Nodup := by
    refine List.Nodup.map_on (fun i hi j hj hsame => ?_) List.nodup_range
    rw [List.mem_range] at hi hj
    rcases Nat.lt_trichotomy i j with hij | hij | hij
    · exact absurd hsame (injOn_of_shortest hshort hvisit hij (by omega))
    · exact hij
    · exact absurd hsame.symm (injOn_of_shortest hshort hvisit hij (by omega))
  have hnodes : (List.range n).map visit ⊆ g.nodes := by
    intro c hc
    obtain ⟨i, hi, rfl⟩ := List.mem_map.mp hc
    rw [List.mem_range] at hi
    obtain ⟨d, hd⟩ := manages_of_steps (by omega) (hvisit i (by omega)).2
    exact mem_nodes_of_manages hd
  have hlen := (List.subperm_of_subset hdistinct hnodes).length_le
  simpa using hlen

/-- Whatever a path leads to is met within as many edges as the graph has roles. -/
theorem within_of_steps {n : ℕ} {a b : α} (h : g.Steps n a b) : g.Within g.nodes.length a b := by
  classical
  have hex : ∃ k, g.Steps k a b := ⟨n, h⟩
  have hshort : ∀ k < Nat.find hex, ¬ g.Steps k a b := fun k hk => Nat.find_min hex hk
  exact ⟨Nat.find hex, length_le_of_shortest (Nat.find_spec hex) hshort, Nat.find_spec hex⟩

/-! ### Descendants -/

theorem nodup_widen (levels : ℕ) {frontier met : List α} (hmet : met.Nodup) :
    (g.widen levels frontier met).Nodup := by
  induction levels generalizing frontier met with
  | zero => exact hmet
  | succ levels ih =>
      simp only [widen]
      split
      · exact hmet
      · refine ih (List.nodup_append.mpr ⟨hmet, nodup_distinct _, fun a ha b hb => ?_⟩)
        rintro rfl
        rw [mem_distinct, List.mem_filter] at hb
        simp [ha] at hb

/-- Without a depth, the descendants are the other roles that any path leads to. -/
theorem mem_descendants_none (role x : α) :
    x ∈ g.descendants role none ↔ x ≠ role ∧ ∃ n, g.Steps n role x := by
  have hwithin : g.Within g.nodes.length role x ↔ ∃ n, g.Steps n role x :=
    ⟨fun ⟨k, _, hk⟩ => ⟨k, hk⟩, fun ⟨n, hn⟩ => within_of_steps hn⟩
  rw [descendants, List.mem_filter, mem_widen g.nodes.length (atLevel_zero role), Nat.zero_add,
    hwithin, and_comm]
  simp

/-- The descendants of a role are the other roles that a path of one edge or more leads to, and of
no more edges than the depth when one is given.  None is listed twice, and a role reaches its
descendants and no others. -/
theorem mem_descendants_iff_steps (g : RoleGraph α) (role : α) (depth : Option ℤ) :
    (g.descendants role depth).Nodup ∧ ∀ x,
      (x ∈ g.descendants role depth ↔
        x ≠ role ∧ ∃ n : ℕ, 1 ≤ n ∧ (∀ d, depth = some d → (n : ℤ) ≤ d) ∧ g.Steps n role x) ∧
      (g.reaches role x depth = true ↔ x ∈ g.descendants role depth) := by
  refine ⟨(nodup_widen _ (List.nodup_singleton role)).filter _, fun x => ⟨?_, ?_⟩⟩
  · cases depth with
    | none =>
        rw [mem_descendants_none]
        refine and_congr_right fun hne => ⟨?_, ?_⟩
        · rintro ⟨n, hn⟩
          exact ⟨n, one_le_of_steps hne hn, nofun, hn⟩
        · rintro ⟨n, -, -, hn⟩
          exact ⟨n, hn⟩
    | some d =>
        rw [mem_descendants]
        refine and_congr_right fun hne => ⟨?_, ?_⟩
        · rintro ⟨n, hle, hn⟩
          have hone := one_le_of_steps hne hn
          refine ⟨n, hone, fun d' hd' => ?_, hn⟩
          obtain rfl : d = d' := Option.some.inj hd'
          omega
        · rintro ⟨n, hone, hle, hn⟩
          have hd : (n : ℤ) ≤ d := hle d rfl
          exact ⟨n, by omega, hn⟩
  · rw [reaches, List.contains_iff_mem]

/-- A cycle of three roles, from one of them, two edges deep. -/
theorem mem_descendants_iff_steps_ring :
    LawfulBEq ℤ ∧
      let g : RoleGraph ℤ := ofEdges [(1, 2), (2, 3), (3, 1)]
      g.descendants 1 (some 2) = [2, 3] ∧ (g.descendants 1 (some 2)).Nodup ∧ ∀ x,
        (x ∈ g.descendants 1 (some 2) ↔
          x ≠ 1 ∧ ∃ n : ℕ, 1 ≤ n ∧ (∀ d, some 2 = some d → (n : ℤ) ≤ d) ∧ g.Steps n 1 x) ∧
        (g.reaches 1 x (some 2) = true ↔ x ∈ g.descendants 1 (some 2)) :=
  ⟨inferInstance, by decide, mem_descendants_iff_steps _ 1 (some 2)⟩

end RoleGraph
end AccessControl
