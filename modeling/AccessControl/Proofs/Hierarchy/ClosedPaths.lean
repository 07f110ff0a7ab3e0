import AccessControl.Proofs.Hierarchy.Cycles
import Mathlib

/-! # The cycle that is reported

A search keeps its path: each role of it manages the next one, and none is there twice.  When it
meets a role of the path again, the end of the path from there on is a cycle (`isCycle_of_search`).
Together with the search that ends without one, this decides whether the edges have a cycle
(`findCycle_ofEdges`).  The bound on the depth is never met: deeper searches give the same result
(`search_eq_of_deep`). -/

namespace AccessControl

/-! ### Closed paths -/

/-- A path of one edge or more that ends where it begins and meets no other role twice. -/
structure IsCycle {α : Type} (edge : α → α → Prop) (path : List α) : Prop where
  long : 2 ≤ path.length
  closed : path.head? = path.getLast?
  distinct : path.dropLast.Nodup
  edges : path.IsChain edge

section closed

variable {α : Type} {edge edge' : α → α → Prop} {path : List α}

theorem isChain_concat {a : α} (hpath : path.IsChain edge)
    (hlast : ∀ last ∈ path.getLast?, edge last a) :
    (path ++ [a]).IsChain edge := by
  refine hpath.append (.singleton a) fun last hl a' ha' => ?_
  obtain rfl : a' = a := by simpa using ha'.symm
  exact hlast last hl

theorem isCycle_of_concat {role : α} {others : List α} (hdistinct : (role :: others).Nodup)
    (hedges : (role :: others ++ [role]).IsChain edge) :
    IsCycle edge (role :: others ++ [role]) where
  long := by simp
  closed := by rw [List.getLast?_concat, List.cons_append, List.head?_cons]
  distinct := by rwa [List.dropLast_concat]
  edges := hedges

theorem IsCycle.mono (h : IsCycle edge path) (hle : ∀ a b, edge a b → edge' a b) :
    IsCycle edge' path :=
  ⟨h.long, h.closed, h.distinct, h.edges.imp hle⟩

theorem IsCycle.transGen (h : IsCycle edge path) : ∃ a, Relation.TransGen edge a a := by
  have hlong := h.long
  match path, h with
  | a :: b :: rest, h =>
      obtain ⟨hab, hrest⟩ := List.isChain_cons_cons.mp h.edges
      have hlast : (b :: rest).getLast (List.cons_ne_nil b rest) = a := by
        have hclosed := h.closed
        rw [List.head?_cons, List.getLast?_cons_cons,
          List.getLast?_eq_some_getLast (List.cons_ne_nil b rest)] at hclosed
        exact (Option.some.inj hclosed).symm
      refine ⟨a, .head' hab ?_⟩
      exact List.relationReflTransGen_of_exists_isChain_cons rest hrest hlast

theorem isChain_or_passes {h l : α} (hnew : ∀ a b, edge' a b → edge a b ∨ (a = h ∧ b = l)) :
    ∀ {path : List α}, path.IsChain edge' → path.IsChain edge ∨ [h, l] <:+: path
  | [], _ => .inl .nil
  | [a], _ => .inl (.singleton a)
  | a :: b :: rest, hpath => by
      obtain ⟨hab, hrest⟩ := List.isChain_cons_cons.mp hpath
      rcases hnew a b hab with hab | ⟨rfl, rfl⟩
      · rcases isChain_or_passes hnew hrest with hrest | hwithin
        · exact .inl (List.isChain_cons_cons.mpr ⟨hab, hrest⟩)
        · exact .inr (hwithin.trans (List.suffix_cons a _).isInfix)
      · exact .inr ⟨[], rest, rfl⟩

theorem IsCycle.infix_of_acyclic {h l : α} (hcycle : IsCycle edge' path)
    (hacyclic : ∀ a, ¬ Relation.TransGen edge a a)
    (hnew : ∀ a b, edge' a b → edge a b ∨ (a = h ∧ b = l)) : [h, l] <:+: path := by
  refine (isChain_or_passes hnew hcycle.edges).resolve_left fun hedges => ?_
  obtain ⟨a, ha⟩ := (IsCycle.mk hcycle.long hcycle.closed hcycle.distinct hedges).transGen
  exact hacyclic a ha

/-- With one edge more, what is below a role was below it before, or is below the lower end of that
edge, whose upper end is reached. -/
theorem transGen_or_through {h l a b : α} (hnew : ∀ a b, edge' a b → edge a b ∨ (a = h ∧ b = l))
    (hab : Relation.TransGen edge' a b) :
    Relation.TransGen edge a b ∨ (Relation.ReflTransGen edge a h ∧ Relation.ReflTransGen edge l b) ∨
      Relation.ReflTransGen edge l h := by
  induction hab with
  | single hab =>
      rcases hnew _ _ hab with hab | ⟨rfl, rfl⟩
      · exact .inl (.single hab)
      · exact .inr (.inl ⟨.refl, .refl⟩)
  | tail _ hbc ih =>
      rcases hnew _ _ hbc with hbc | ⟨rfl, rfl⟩
      · rcases ih with hab | ⟨hah, hlb⟩ | hlh
        · exact .inl (hab.tail hbc)
        · exact .inr (.inl ⟨hah, hlb.tail hbc⟩)
        · exact .inr (.inr hlh)
      · rcases ih with hab | ⟨-, hlb⟩ | hlh
        · exact .inr (.inl ⟨hab.to_reflTransGen, .refl⟩)
        · exact .inr (.inr hlb)
        · exact .inr (.inr hlh)

/-- An edge closes a cycle if and only if its upper end is reached from its lower end. -/
theorem acyclic_iff_not_reached {h l : α} (hacyclic : ∀ a, ¬ Relation.TransGen edge a a)
    (hedge : ∀ a b, edge' a b ↔ edge a b ∨ (a = h ∧ b = l)) :
    (∀ a, ¬ Relation.TransGen edge' a a) ↔ ¬ Relation.ReflTransGen edge l h := by
  constructor
  · intro hall hlh
    have hhl : edge' h l := (hedge h l).mpr (.inr ⟨rfl, rfl⟩)
    have hle : edge ≤ edge' := fun a b hab => (hedge a b).mpr (.inl hab)
    have hback : Relation.ReflTransGen edge' l h := Relation.ReflTransGen.mono hle l h hlh
    exact hall h (.head' hhl hback)
  · intro hnot a ha
    rcases transGen_or_through (fun a b => (hedge a b).mp) ha with ha | ⟨hah, hla⟩ | hlh
    · exact hacyclic a ha
    · exact hnot (hla.trans hah)
    · exact hnot hlh

end closed

namespace RoleGraph

variable {α : Type} [BEq α] [LawfulBEq α] {g : RoleGraph α}

/-! ### The path of a search -/

theorem closedPath_eq {front back : List α} {role : α} (hback : role ∉ back) :
    closedPath (front ++ role :: back) role = role :: front.reverse ++ [role] := by
  have hskip : ∀ a ∈ back.reverse, (a != role) = true := by
    intro a ha
    have hne : a ≠ role := by
      rintro rfl
      exact hback (List.mem_reverse.mp ha)
    simpa using hne
  have hreverse : (front ++ role :: back).reverse = back.reverse ++ role :: front.reverse := by simp
  rw [closedPath, hreverse, List.dropWhile_append_of_pos hskip,
    List.dropWhile_cons_of_neg (by simp)]

/-- A role that the last role of a path manages, and that the path has met, closes a cycle. -/
theorem isCycle_closedPath {path : List α} {role : α} (hdistinct : path.Nodup)
    (hedges : path.reverse.IsChain g.Manages) (hlast : ∀ last ∈ path.head?, g.Manages last role)
    (hmem : role ∈ path) :
    IsCycle g.Manages (closedPath path role) := by
  obtain ⟨front, back, rfl⟩ := List.append_of_mem hmem
  obtain ⟨-, hback, hapart⟩ := List.nodup_append.mp hdistinct
  obtain ⟨hback, -⟩ := List.nodup_cons.mp hback
  rw [closedPath_eq hback]
  apply isCycle_of_concat
  · -- The part of the path from the visit on, in reverse.
    have hpart : (front ++ [role]).Nodup := hdistinct.sublist (by simp)
    have hreverse : (front ++ [role]).reverse = role :: front.reverse := by simp
    exact hreverse ▸ List.nodup_reverse.mpr hpart
  · have hpart : (role :: front.reverse).IsChain g.Manages := hedges.suffix ⟨back.reverse, by simp⟩
    refine isChain_concat hpart fun last hmem' => hlast last ?_
    -- The end of the path is its nearest role: the first before the visited one, or that role
    -- itself.
    cases front with
    | nil => simpa using hmem'
    | cons a front => simpa [List.getLast?_cons] using hmem'

/-- What a search reports is a cycle.  The roles that it goes through are managed by the
last role of its path. -/
theorem isCycle_of_search (depth : ℕ) (path cleared roles cycle : List α)
    (hsearch : g.search depth path cleared roles = .error cycle) (hdistinct : path.Nodup)
    (hedges : path.reverse.IsChain g.Manages)
    (hlast : ∀ last ∈ path.head?, ∀ a ∈ roles, g.Manages last a) :
    IsCycle g.Manages cycle := by
  induction depth, path, cleared, roles using RoleGraph.search.induct g with
  | case1 depth path cleared =>
      rw [search.eq_def] at hsearch
      cases hsearch
  | case2 depth path cleared role roles hmem =>
      rw [search.eq_def] at hsearch
      simp only [hmem, if_true, Except.error.injEq] at hsearch
      subst hsearch
      refine isCycle_closedPath hdistinct hedges
        (fun last hl => hlast last hl role List.mem_cons_self) ?_
      simpa using hmem
  | case3 depth path cleared role roles hmem hcleared ih =>
      rw [search.eq_def] at hsearch
      simp only [hmem, hcleared, if_true] at hsearch
      exact ih hsearch hdistinct hedges fun last hl a ha =>
        hlast last hl a (List.mem_cons_of_mem role ha)
  | case4 path cleared role roles hmem hcleared =>
      rw [search.eq_def] at hsearch
      simp only [hmem, hcleared] at hsearch
      cases hsearch
  | case5 path cleared role roles hmem hcleared below cycle' hbelow ih =>
      rw [search.eq_def] at hsearch
      simp only [hmem, hcleared, hbelow] at hsearch
      obtain rfl : cycle' = cycle := by simpa using hsearch
      have hrole : role ∉ path := by simpa using hmem
      refine ih hbelow (List.nodup_cons.mpr ⟨hrole, hdistinct⟩) ?_ ?_
      · -- The path grows by the role, which its last role manages.
        rw [List.reverse_cons]
        exact isChain_concat hedges fun last hl =>
          hlast last (by simpa using hl) role List.mem_cons_self
      · intro last hl a ha
        obtain rfl : role = last := by simpa using hl
        exact ha
  | case6 path cleared role roles hmem hcleared below cleared' hbelow ihBelow ihRest =>
      rw [search.eq_def] at hsearch
      simp only [hmem, hcleared, hbelow] at hsearch
      exact ihRest hsearch hdistinct hedges fun last hl a ha =>
        hlast last hl a (List.mem_cons_of_mem role ha)

theorem isCycle_of_findCycle {cycle : List α} (h : g.findCycle = some cycle) :
    IsCycle g.Manages cycle := by
  cases hsearch : g.search (g.nodes.length + 1) [] [] g.nodes with
  | ok result => simp [findCycle, hsearch] at h
  | error found =>
      obtain rfl : found = cycle := by simpa [findCycle, hsearch] using h
      exact isCycle_of_search _ [] [] g.nodes found hsearch .nil .nil (by simp)

theorem findCycle_eq_none_iff (hg : g.WellFormed) : g.findCycle = none ↔ g.Acyclic := by
  constructor
  · exact acyclic_of_findCycle hg
  · intro hacyclic
    cases hcycle : g.findCycle with
    | none => rfl
    | some cycle =>
        obtain ⟨a, ha⟩ := (isCycle_of_findCycle hcycle).transGen
        exact absurd ha (hacyclic a)

/-! ### The depth of a search -/

omit [BEq α] [LawfulBEq α] in
theorem deep_below {path : List α} {role : α} {depth : ℕ} (hdistinct : path.Nodup)
    (hpath : ∀ a ∈ path, a ∈ g.nodes) (hrole : role ∉ path) (hnode : role ∈ g.nodes)
    (hdepth : g.nodes.length ≤ path.length + depth) :
    ∃ below, depth = below + 1 ∧ g.nodes.length ≤ (role :: path).length + below := by
  have hroom := length_lt_of_new hdistinct hpath hrole hnode
  refine ⟨depth - 1, by omega, ?_⟩
  rw [List.length_cons]
  omega

/-- All searches that are deep enough for the roles that are not yet on their path
give the same result. -/
theorem search_eq_of_deep (hg : g.WellFormed) (depth depth' : ℕ) (path cleared roles : List α)
    (hdepth : g.nodes.length ≤ path.length + depth)
    (hdepth' : g.nodes.length ≤ path.length + depth') (hroles : ∀ a ∈ roles, a ∈ g.nodes)
    (hpath : ∀ a ∈ path, a ∈ g.nodes) (hdistinct : path.Nodup) :
    g.search depth path cleared roles = g.search depth' path cleared roles := by
  induction depth, path, cleared, roles using RoleGraph.search.induct g generalizing depth' with
  | case1 depth path cleared => rw [search.eq_def, search.eq_def g depth']
  | case2 depth path cleared role roles hmem =>
      rw [search.eq_def, search.eq_def g depth']
      simp only [hmem, if_true]
  | case3 depth path cleared role roles hmem hcleared ih =>
      rw [search.eq_def, search.eq_def g depth']
      simp only [hmem, hcleared, if_true]
      exact ih depth' hdepth hdepth' (fun a ha => hroles a (List.mem_cons_of_mem role ha)) hpath
        hdistinct
  | case4 path cleared role roles hmem hcleared =>
      have hroom :=
        length_lt_of_new hdistinct hpath (by simpa using hmem) (hroles role List.mem_cons_self)
      omega
  | case5 path cleared role roles hmem hcleared below cycle hbelow ih =>
      have hrole : role ∉ path := by simpa using hmem
      have hnode : role ∈ g.nodes := hroles role List.mem_cons_self
      obtain ⟨below', rfl, hbelow'⟩ := deep_below hdistinct hpath hrole hnode hdepth'
      have hsame :=
        ih below' (by rw [List.length_cons]; omega) hbelow' (fun a ha => hg.children_mem role a ha)
        (List.forall_mem_cons.mpr ⟨hnode, hpath⟩) (List.nodup_cons.mpr ⟨hrole, hdistinct⟩)
      rw [search.eq_def, search.eq_def g (below' + 1)]
      simp only [hmem, hcleared, ← hsame, hbelow, Bool.false_eq_true, if_false]
  | case6 path cleared role roles hmem hcleared below cleared' hbelow ihBelow ihRest =>
      have hrole : role ∉ path := by simpa using hmem
      have hnode : role ∈ g.nodes := hroles role List.mem_cons_self
      obtain ⟨below', rfl, hbelow'⟩ := deep_below hdistinct hpath hrole hnode hdepth'
      have hsame :=
        ihBelow below' (by rw [List.length_cons]; omega) hbelow'
          (fun a ha => hg.children_mem role a ha)
        (List.forall_mem_cons.mpr ⟨hnode, hpath⟩) (List.nodup_cons.mpr ⟨hrole, hdistinct⟩)
      have hrest :=
        ihRest (below' + 1) hdepth hdepth' (fun a ha => hroles a (List.mem_cons_of_mem role ha))
          hpath hdistinct
      rw [search.eq_def, search.eq_def g (below' + 1)]
      simp only [hmem, hcleared, ← hsame, hbelow, Bool.false_eq_true, if_false]
      exact hrest

/-! ### The cycles of some edges -/

/-- The search of a graph of edges does not meet its bound.  It ends without a cycle if and
only if no path of one edge or more leads from a role back to it, and what it gives otherwise
is a cycle of the edges. -/
theorem findCycle_ofEdges (edges : List (α × α)) :
    let g := ofEdges edges
    let edge := fun a b => (a, b) ∈ edges
    (∀ depth, g.nodes.length < depth →
      g.search depth [] [] g.nodes = g.search (g.nodes.length + 1) [] [] g.nodes) ∧
      (g.findCycle = none ↔ ∀ a, ¬ Relation.TransGen edge a a) ∧
      ∀ cycle, g.findCycle = some cycle → IsCycle edge cycle := by
  intro g edge
  have hg : g.WellFormed := wellFormed_ofEdges edges
  have hedge : g.Manages = edge := funext₂ fun a b => propext (manages_ofEdges edges a b)
  refine ⟨fun depth hdepth => ?_, ?_, fun cycle hcycle => ?_⟩
  · apply search_eq_of_deep hg depth (g.nodes.length + 1) [] [] g.nodes
    · rw [List.length_nil]; omega
    · rw [List.length_nil]; omega
    · exact fun a ha => ha
    · simp
    · exact .nil
  · rw [findCycle_eq_none_iff hg, Acyclic, hedge]
  · exact hedge ▸ isCycle_of_findCycle hcycle

/-- Two roles that manage each other, and one that manages itself. -/
theorem findCycle_ofEdges_mutual :
    LawfulBEq ℤ ∧
      let edges : List (ℤ × ℤ) := [(4, 1), (1, 2), (3, 3), (2, 1)]
      let g := ofEdges edges
      let edge := fun a b => (a, b) ∈ edges
      g.findCycle = some [1, 2, 1] ∧
        (∀ depth, g.nodes.length < depth →
          g.search depth [] [] g.nodes = g.search (g.nodes.length + 1) [] [] g.nodes) ∧
        (g.findCycle = none ↔ ∀ a, ¬ Relation.TransGen edge a a) ∧
        ∀ cycle, g.findCycle = some cycle → IsCycle edge cycle :=
  ⟨inferInstance, by cbv, findCycle_ofEdges _⟩

end RoleGraph
end AccessControl
