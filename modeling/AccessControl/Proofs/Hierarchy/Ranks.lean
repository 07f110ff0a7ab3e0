import AccessControl.Proofs.Hierarchy.Descendants
import AccessControl.Proofs.Hierarchy.Cycles
import Mathlib

/-! # Ranks in acyclic graphs

In an acyclic graph no two roles are below each other, and of any roles one is below none of the
others (`exists_top`).  The search for descendants sees this order as far as its depth goes: it
never orders a role below itself or two roles below each other, and where no path is longer than the
depth, the descendants of a role are all roles below it (`mem_descendants_iff_transGen`). -/

namespace AccessControl

/-- Among some roles of which none is above itself, there is one that none of the others is
above. -/
theorem exists_top {α : Type} {above : α → α → Prop} (hirrefl : ∀ a, ¬ above a a)
    (htrans : ∀ a b c, above a b → above b c → above a c) {roles : List α} (hroles : roles ≠ []) :
    ∃ top ∈ roles, ∀ a ∈ roles, ¬ above a top := by
  induction roles with
  | nil => exact absurd rfl hroles
  | cons role roles ih =>
      by_cases hrest : roles = []
      · subst hrest
        exact ⟨role, List.mem_singleton_self role, fun a ha => List.mem_singleton.mp ha ▸ hirrefl a⟩
      · obtain ⟨top, htop, hnone⟩ := ih hrest
        by_cases habove : above role top
        · refine ⟨role, List.mem_cons_self, fun a ha habove' => ?_⟩
          rcases List.mem_cons.mp ha with rfl | ha
          · exact hirrefl a habove'
          · exact hnone a ha (htrans a role top habove' habove)
        · exact ⟨top, List.mem_cons_of_mem role htop, List.forall_mem_cons.mpr ⟨habove, hnone⟩⟩

namespace RoleGraph

variable {α : Type} [BEq α] {g : RoleGraph α} {a b c : α}

/-! ### Paths -/

theorem transGen_of_steps {n : ℕ} (hn : 0 < n) (h : g.Steps n a b) :
    Relation.TransGen g.Manages a b := by
  induction n generalizing b with
  | zero => exact absurd hn (Nat.lt_irrefl 0)
  | succ n ih =>
      obtain ⟨c, hac, hcb⟩ := h
      cases n with
      | zero =>
          obtain rfl : a = c := hac
          exact .single hcb
      | succ n => exact (ih (Nat.succ_pos n) hac).tail hcb

theorem steps_of_transGen (h : Relation.TransGen g.Manages a b) : ∃ n, 0 < n ∧ g.Steps n a b := by
  induction h with
  | single hab => exact ⟨1, Nat.one_pos, a, rfl, hab⟩
  | tail _ hbc ih =>
      obtain ⟨n, -, hn⟩ := ih
      exact ⟨n + 1, Nat.succ_pos n, _, hn, hbc⟩

/-! ### Descendants -/

variable [LawfulBEq α] {depth : ℤ}

theorem transGen_of_mem_descendants (h : b ∈ g.descendants a (some depth)) :
    Relation.TransGen g.Manages a b := by
  obtain ⟨hne, n, -, hn⟩ := (mem_descendants a depth b).mp h
  exact transGen_of_steps (one_le_of_steps hne hn) hn

theorem not_mem_descendants_of_mem (hg : g.Acyclic) (h : b ∈ g.descendants a (some depth)) :
    a ∉ g.descendants b (some depth) := fun hback =>
  hg a ((transGen_of_mem_descendants h).trans (transGen_of_mem_descendants hback))

/-- In an acyclic graph, the descendants of a role are the roles at the end of a path that is not
longer than the depth. -/
theorem mem_descendants_of_acyclic (hg : g.Acyclic) :
    b ∈ g.descendants a (some depth) ↔ ∃ n, 1 ≤ n ∧ n ≤ depth.toNat ∧ g.Steps n a b := by
  rw [mem_descendants]
  constructor
  · rintro ⟨hne, n, hn, hsteps⟩
    exact ⟨n, one_le_of_steps hne hsteps, hn, hsteps⟩
  · rintro ⟨n, hpos, hn, hsteps⟩
    refine ⟨?_, n, hn, hsteps⟩
    rintro rfl
    exact hg b (transGen_of_steps hpos hsteps)

/-- Without a path that is longer than the depth, they are all roles below it. -/
theorem mem_descendants_iff_transGen (hg : g.Acyclic)
    (hdepth : ∀ n a b, g.Steps n a b → n ≤ depth.toNat) :
    b ∈ g.descendants a (some depth) ↔ Relation.TransGen g.Manages a b := by
  refine ⟨transGen_of_mem_descendants, fun h => ?_⟩
  obtain ⟨n, hpos, hn⟩ := steps_of_transGen h
  exact (mem_descendants_of_acyclic hg).mpr ⟨n, hpos, hdepth n a b hn, hn⟩

end RoleGraph
end AccessControl
