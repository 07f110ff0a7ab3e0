import AccessControl.Hierarchy.Graph
import AccessControl.Proofs.Order
import Mathlib

/-! # Paths in role graphs

The graph of some edges has these edges and no others (`manages_ofEdges`), and every end of an edge
is one of its roles (`wellFormed_ofEdges`).  A search from a role that widens level by level meets
exactly the roles that a path of at most so many edges leads to (`mem_descendants`). -/

namespace AccessControl
namespace RoleGraph

variable {α : Type} [BEq α]

/-! ### Statements -/

/-- The first role manages the second directly. -/
def Manages (g : RoleGraph α) (higher lower : α) : Prop := lower ∈ g.children higher

/-- There is a path of so many edges. -/
def Steps (g : RoleGraph α) : ℕ → α → α → Prop
  | 0, a, b => a = b
  | n + 1, a, b => ∃ c, g.Steps n a c ∧ g.Manages c b

/-- There is a path of at most so many edges. -/
def Within (g : RoleGraph α) (n : ℕ) (a b : α) : Prop := ∃ k ≤ n, g.Steps k a b

/-- Each role is there once, and so is every role that is managed. -/
structure WellFormed (g : RoleGraph α) : Prop where
  nodup : g.nodes.Nodup
  children_mem : ∀ a b, g.Manages a b → b ∈ g.nodes

/-! ### Construction -/

theorem wellFormed_empty : (empty : RoleGraph α).WellFormed where
  nodup := .nil
  children_mem := fun _ _ h => absurd h List.not_mem_nil

@[simp] theorem nodes_addChild (g : RoleGraph α) (a b : α) : (g.addChild a b).nodes = g.nodes := by
  simp only [addChild, nodes, List.map_map]
  refine List.map_congr_left fun entry _ => ?_
  simp only [Function.comp]
  split <;> rfl

section construction

variable [LawfulBEq α]

theorem lookup_eq_none {g : RoleGraph α} {a : α} (h : a ∉ g.nodes) :
    g.adjacency.lookup a = none := by
  refine List.lookup_eq_none_iff.mpr fun entry he => ?_
  have hne : entry.1 ≠ a := by
    rintro rfl
    exact h (List.mem_map_of_mem he)
  simpa using Ne.symm hne

theorem children_eq_nil {g : RoleGraph α} {a : α} (h : a ∉ g.nodes) : g.children a = [] := by
  rw [children, lookup_eq_none h, Option.getD_none]

theorem mem_nodes_of_manages {g : RoleGraph α} {a b : α} (h : g.Manages a b) : a ∈ g.nodes := by
  by_contra ha
  rw [Manages, children_eq_nil ha] at h
  exact List.not_mem_nil h

@[simp] theorem mem_nodes_addNode (g : RoleGraph α) (a b : α) :
    b ∈ (g.addNode a).nodes ↔ b ∈ g.nodes ∨ b = a := by
  unfold addNode
  split
  · next h =>
      have ha : a ∈ g.nodes := by simpa using h
      constructor
      · exact .inl
      · rintro (hb | rfl)
        · exact hb
        · exact ha
  · simp [nodes]

@[simp] theorem children_addNode (g : RoleGraph α) (a b : α) :
    (g.addNode a).children b = g.children b := by
  unfold addNode
  split
  · rfl
  · next h =>
      have ha : a ∉ g.nodes := by simpa using h
      by_cases hb : b = a
      · subst hb
        rw [children_eq_nil ha]
        simp [children, List.lookup_append, lookup_eq_none ha]
      · have hba : (b == a) = false := by simpa using hb
        simp [children, List.lookup_append, List.lookup_cons, hba]

/-- A changed list of managed roles is found under the same role. -/
theorem lookup_map_values (change : α × List α → α × List α)
    (h : ∀ entry, (change entry).1 = entry.1) (entries : List (α × List α)) (a : α) :
    (entries.map change).lookup a = (entries.lookup a).map fun below => (change (a, below)).2 := by
  induction entries with
  | nil => rfl
  | cons entry entries ih =>
      obtain ⟨b, below⟩ := entry
      have hb : change (b, below) = (b, (change (b, below)).2) := Prod.ext (h (b, below)) rfl
      rw [List.map_cons, hb]
      by_cases hab : a = b
      · subst hab
        simp
      · have hf : (a == b) = false := by simpa using hab
        simp [List.lookup_cons, hf, ih]

theorem manages_addChild {g : RoleGraph α} {a : α} (ha : a ∈ g.nodes) (b c d : α) :
    (g.addChild a b).Manages c d ↔ g.Manages c d ∨ (c = a ∧ d = b) := by
  have hkey : ∀ entry : α × List α,
      (if entry.1 == a && !entry.2.contains b then (entry.1, entry.2 ++ [b]) else entry).1 =
        entry.1 := by
    intro entry
    split <;> rfl
  have hl := lookup_map_values _ hkey g.adjacency c
  simp only [Manages, children, addChild, hl]
  cases hc : g.adjacency.lookup c with
  | none =>
      have hca : c ≠ a := by
        rintro rfl
        obtain ⟨entry, he, hec⟩ := List.mem_map.mp ha
        have hne := List.lookup_eq_none_iff.mp hc entry he
        simp [hec] at hne
      simp [hca]
  | some below =>
      by_cases hca : c = a
      · by_cases hb : b ∈ below
        · have : d = b → d ∈ below := fun e => e ▸ hb
          simpa [hca, hb] using this
        · simp [hca, hb]
      · simp [hca]

theorem manages_addEdge (g : RoleGraph α) (a b c d : α) :
    (g.addEdge a b).Manages c d ↔ g.Manages c d ∨ (c = a ∧ d = b) := by
  have ha : a ∈ (g.addNode a).nodes := (mem_nodes_addNode g a a).mpr (.inr rfl)
  rw [addEdge, Manages, children_addNode, ← Manages, manages_addChild ha, Manages, Manages,
    children_addNode]

theorem mem_nodes_addEdge (g : RoleGraph α) (a b c : α) :
    c ∈ (g.addEdge a b).nodes ↔ c ∈ g.nodes ∨ c = a ∨ c = b := by
  rw [addEdge, mem_nodes_addNode, nodes_addChild, mem_nodes_addNode, or_assoc]

theorem nodup_addNode {g : RoleGraph α} (h : g.nodes.Nodup) (a : α) :
    (g.addNode a).nodes.Nodup := by
  unfold addNode
  split
  · exact h
  · next ha =>
      have hn : a ∉ g.nodes := by simpa using ha
      have he : (⟨g.adjacency ++ [(a, [])]⟩ : RoleGraph α).nodes = g.nodes ++ [a] := by simp [nodes]
      rw [he]
      exact List.nodup_append.mpr ⟨h, List.nodup_singleton a, fun x hx y hy => by
        rw [List.mem_singleton] at hy
        rintro rfl
        exact hn (hy ▸ hx)⟩

theorem wellFormed_addEdge {g : RoleGraph α} (h : g.WellFormed) (a b : α) :
    (g.addEdge a b).WellFormed where
  nodup := by
    have h1 := nodup_addNode h.nodup a
    refine nodup_addNode ?_ b
    rw [nodes_addChild]
    exact h1
  children_mem := by
    intro c d hcd
    rw [mem_nodes_addEdge]
    rcases (manages_addEdge g a b c d).mp hcd with hcd | ⟨-, rfl⟩
    · exact .inl (h.children_mem c d hcd)
    · exact .inr (.inr rfl)

theorem foldl_addEdge (edges : List (α × α)) {g : RoleGraph α} (h : g.WellFormed) :
    let built := edges.foldl (fun g e => g.addEdge e.1 e.2) g
    built.WellFormed ∧ ∀ c d, built.Manages c d ↔ g.Manages c d ∨ (c, d) ∈ edges := by
  induction edges generalizing g with
  | nil => exact ⟨h, by simp⟩
  | cons e edges ih =>
      obtain ⟨a, b⟩ := e
      obtain ⟨hw, hm⟩ := ih (wellFormed_addEdge h a b)
      refine ⟨hw, fun c d => (hm c d).trans ?_⟩
      rw [manages_addEdge, List.mem_cons, Prod.mk.injEq, or_assoc]

theorem wellFormed_ofEdges (edges : List (α × α)) : (ofEdges edges).WellFormed :=
  (foldl_addEdge edges wellFormed_empty).1

/-- The graph of some edges has these edges. -/
theorem manages_ofEdges (edges : List (α × α)) (a b : α) :
    (ofEdges edges).Manages a b ↔ (a, b) ∈ edges := by
  rw [ofEdges, (foldl_addEdge edges wellFormed_empty).2 a b]
  exact or_iff_right List.not_mem_nil

end construction

/-! ### Paths -/

section paths

variable {g : RoleGraph α}

theorem within_zero {a b : α} : g.Within 0 a b ↔ a = b := by
  constructor
  · rintro ⟨k, hk, h⟩
    obtain rfl : k = 0 := by omega
    exact h
  · exact fun h => ⟨0, le_rfl, h⟩

theorem within_mono {m n : ℕ} (h : m ≤ n) {a b : α} : g.Within m a b → g.Within n a b :=
  fun ⟨k, hk, hs⟩ => ⟨k, hk.trans h, hs⟩

theorem within_succ {n : ℕ} {a b : α} :
    g.Within (n + 1) a b ↔ g.Within n a b ∨ ∃ c, g.Within n a c ∧ g.Manages c b := by
  constructor
  · rintro ⟨k, hk, hs⟩
    by_cases hkn : k ≤ n
    · exact .inl ⟨k, hkn, hs⟩
    · obtain rfl : k = n + 1 := by omega
      obtain ⟨c, hc, hcb⟩ := hs
      exact .inr ⟨c, ⟨n, le_rfl, hc⟩, hcb⟩
  · rintro (h | ⟨c, ⟨k, hk, hs⟩, hcb⟩)
    · exact within_mono (Nat.le_succ n) h
    · exact ⟨k + 1, by omega, c, hs, hcb⟩

end paths

/-! ### Widening -/

section widening

variable {g : RoleGraph α}

/-- A search that stands at a level has met the roles down to it, and has still to
look below its frontier. -/
structure AtLevel (g : RoleGraph α) (source : α) (level : ℕ) (frontier met : List α) : Prop where
  mem_met : ∀ x, x ∈ met ↔ g.Within level source x
  frontier_met : ∀ x ∈ frontier, x ∈ met
  closed : ∀ x ∈ met, x ∉ frontier → ∀ y, g.Manages x y → y ∈ met

theorem atLevel_zero (source : α) : AtLevel g source 0 [source] [source] where
  mem_met x := by rw [List.mem_singleton, within_zero, eq_comm]
  frontier_met _ h := h
  closed _ h hn := absurd h hn

variable [LawfulBEq α]

/-- One level further, the roles that are new are the frontier. -/
theorem AtLevel.next {source : α} {level : ℕ} {frontier met next : List α}
    (h : AtLevel g source level frontier met)
    (hnext : ∀ y, y ∈ next ↔ (∃ x ∈ frontier, g.Manages x y) ∧ y ∉ met) :
    AtLevel g source (level + 1) next (met ++ next) where
  mem_met y := by
    rw [List.mem_append, within_succ]
    constructor
    · rintro (hy | hy)
      · exact .inl ((h.mem_met y).mp hy)
      · obtain ⟨⟨x, hx, hxy⟩, -⟩ := (hnext y).mp hy
        exact .inr ⟨x, (h.mem_met x).mp (h.frontier_met x hx), hxy⟩
    · rintro (hy | ⟨x, hx, hxy⟩)
      · exact .inl ((h.mem_met y).mpr hy)
      · by_cases hym : y ∈ met
        · exact .inl hym
        · have hxf : x ∈ frontier := by
            by_contra hxf
            exact hym (h.closed x ((h.mem_met x).mpr hx) hxf y hxy)
          exact .inr ((hnext y).mpr ⟨⟨x, hxf, hxy⟩, hym⟩)
  frontier_met x hx := List.mem_append_right met hx
  closed x hx hxn y hxy := by
    have hxm : x ∈ met := (List.mem_append.mp hx).resolve_right hxn
    by_cases hym : y ∈ met
    · exact List.mem_append_left next hym
    · have hxf : x ∈ frontier := by
        by_contra hxf
        exact hym (h.closed x hxm hxf y hxy)
      exact List.mem_append_right met ((hnext y).mpr ⟨⟨x, hxf, hxy⟩, hym⟩)

/-- A search without new roles below its frontier has met everything. -/
theorem AtLevel.saturated {source : α} {level : ℕ} {frontier met : List α}
    (h : AtLevel g source level frontier met) (hdone : ∀ x ∈ frontier, ∀ y, g.Manages x y → y ∈ met)
    (levels : ℕ) (x : α) :
    x ∈ met ↔ g.Within (level + levels) source x := by
  constructor
  · exact fun hx => within_mono (Nat.le_add_right level levels) ((h.mem_met x).mp hx)
  · rintro ⟨k, -, hs⟩
    have hclosed : ∀ y ∈ met, ∀ z, g.Manages y z → z ∈ met := fun y hy z hyz => by
      by_cases hyf : y ∈ frontier
      · exact hdone y hyf z hyz
      · exact h.closed y hy hyf z hyz
    -- By induction on the length: the source is met, and a step does not leave what is met.
    induction k generalizing x with
    | zero => exact (h.mem_met x).mpr ⟨0, Nat.zero_le level, hs⟩
    | succ k ih =>
        obtain ⟨y, hy, hyx⟩ := hs
        exact hclosed y (ih y hy) x hyx

/-- So many levels further, a search has met the roles down to there. -/
theorem mem_widen {source : α} (levels : ℕ) {level : ℕ} {frontier met : List α}
    (h : AtLevel g source level frontier met) (x : α) :
    x ∈ g.widen levels frontier met ↔ g.Within (level + levels) source x := by
  induction levels generalizing level frontier met with
  | zero => exact h.mem_met x
  | succ levels ih =>
      simp only [widen]
      have hnext : ∀ y, y ∈ Text.distinct ((frontier.flatMap g.children).filter (!met.contains ·)) ↔
          (∃ z ∈ frontier, g.Manages z y) ∧ y ∉ met := by
        intro y
        rw [mem_distinct, List.mem_filter, List.mem_flatMap]
        simp [Manages]
      split
      · next hempty =>
          refine h.saturated (fun z hz y hzy => ?_) (levels + 1) x
          by_contra hy
          have hmem := (hnext y).mpr ⟨⟨z, hz, hzy⟩, hy⟩
          rw [List.isEmpty_iff.mp hempty] at hmem
          exact List.not_mem_nil hmem
      · rw [ih (h.next hnext), Nat.add_right_comm, Nat.add_assoc]

/-- The descendants down to a depth are the other roles that a path of at most so many edges leads
to. -/
theorem mem_descendants (role : α) (depth : ℤ) (x : α) :
    x ∈ g.descendants role (some depth) ↔ x ≠ role ∧ g.Within depth.toNat role x := by
  rw [descendants, List.mem_filter, mem_widen depth.toNat (atLevel_zero role), Nat.zero_add,
    and_comm]
  simp

end widening

end RoleGraph
end AccessControl
