import AccessControl.Proofs.Rule.Sound
import Mathlib

/-! # Sound rules can be selected

Rules that are restored from sound stored ones have numbers to be put in order by, and an
expression is a text if there is one.  So among them a path and a route always select a rule or
none (`exists_select`). -/

namespace AccessControl

open Database

namespace Rule

/-- A rule that can be put in order, and asked whether it accepts a path. -/
structure Selectable (r : Rule) : Prop where
  id : ∃ n, r.id = .int n
  priority : ∃ n, r.priority = .int n
  expression : r.expression = .null ∨ ∃ s, r.expression = .text s

variable {r rule : Rule} {rules : List Rule}

namespace Selectable

theorem isBefore (h : r.Selectable) (h' : rule.Selectable) :
    ∃ before, r.isBefore rule = .ok before := by
  obtain ⟨m, hm⟩ := h.id
  obtain ⟨n, hn⟩ := h'.id
  obtain ⟨p, hp⟩ := h.priority
  obtain ⟨q, hq⟩ := h'.priority
  unfold Rule.isBefore
  rw [hm, hn, hp, hq]
  split
  · split
    · exact ⟨false, rfl⟩
    · exact ⟨_, Value.isBefore_int m n⟩
  · exact ⟨_, Value.isBefore_int q p⟩

theorem acceptsPath (h : r.Selectable) (path : String) :
    ∃ accepts, r.acceptsPath (.text path) = .ok accepts := by
  unfold Rule.acceptsPath
  split
  · exact ⟨false, rfl⟩
  · rcases h.expression with hnull | ⟨s, hs⟩
    · rw [hnull]
      exact ⟨false, rfl⟩
    · rw [hs]
      unfold Path.storedMatches
      split
      · exact ⟨false, rfl⟩
      · dsimp only
        cases Regex.read s with
        | none => exact ⟨false, rfl⟩
        | some r => exact ⟨r.accepts path, rfl⟩

end Selectable

theorem exists_place (hrule : rule.Selectable) (h : ∀ r ∈ rules, r.Selectable) :
    ∃ placed, place rule rules = .ok placed := by
  induction rules with
  | nil => exact ⟨[rule], rfl⟩
  | cons r rules ih =>
      obtain ⟨hr, hrest⟩ := List.forall_mem_cons.mp h
      obtain ⟨before, hbefore⟩ := hr.isBefore hrule
      obtain ⟨placed, hplaced⟩ := ih hrest
      unfold place
      rw [hbefore, hplaced]
      cases before with
      | true => exact ⟨r :: placed, rfl⟩
      | false => exact ⟨rule :: r :: rules, rfl⟩

theorem exists_arrange (h : ∀ r ∈ rules, r.Selectable) :
    ∃ ordered, arrange rules = .ok ordered := by
  induction rules with
  | nil => exact ⟨[], rfl⟩
  | cons rule rules ih =>
      obtain ⟨hrule, hrest⟩ := List.forall_mem_cons.mp h
      obtain ⟨ordered, hordered⟩ := ih hrest
      unfold arrange
      rw [hordered]
      exact exists_place hrule fun r hr => hrest r (mem_of_arrange hordered hr)

theorem exists_byPath (h : ∀ r ∈ rules, r.Selectable) (path : String) :
    ∃ found, byPath (.text path) rules = .ok found := by
  induction rules with
  | nil => exact ⟨none, rfl⟩
  | cons rule rules ih =>
      obtain ⟨hrule, hrest⟩ := List.forall_mem_cons.mp h
      obtain ⟨accepts, haccepts⟩ := hrule.acceptsPath path
      obtain ⟨found, hfound⟩ := ih hrest
      unfold byPath
      rw [haccepts, hfound]
      cases accepts with
      | true => exact ⟨some rule, rfl⟩
      | false => exact ⟨found, rfl⟩

theorem inOrder_eq_arrange (h : ∀ r ∈ rules, r.Selectable) : inOrder rules = arrange rules := by
  refine if_pos (List.all_eq_true.mpr fun r hr => ?_)
  obtain ⟨n, hn⟩ := (h r hr).priority
  rw [hn]
  rfl

/-- Among rules that can be selected, a path and a route select one or none. -/
theorem exists_select (h : ∀ r ∈ rules, r.Selectable) (path : String) (route : Value) :
    ∃ found, select rules (.text path) route = .ok found := by
  obtain ⟨ordered, hordered⟩ := exists_arrange h
  unfold select
  rw [inOrder_eq_arrange h, hordered]
  cases hroute : byRoute ordered route with
  | some rule => exact ⟨some rule, by simp only [Except.bind, bind, hroute, pure, Except.pure]⟩
  | none =>
      obtain ⟨found, hfound⟩ := exists_byPath (fun r hr => h r (mem_of_arrange hordered hr)) path
      exact ⟨found, by simp only [Except.bind, bind, hroute, hfound]⟩

end Rule

theorem Database.RuleRow.Sound.selectable {row : RuleRow} (h : row.Sound) {rule : Rule}
    (hrule : row.restored = .ok rule) :
    rule.Selectable := by
  obtain ⟨hpriority, hexpression⟩ := restored_selection hrule
  obtain ⟨n, hn, -⟩ := h.priority
  refine ⟨⟨row.id, (restored_spec hrule).1⟩, ⟨n, hpriority.trans hn⟩, ?_⟩
  rw [hexpression]
  unfold RuleRow.givenText
  cases row.expression.filter (· != "") with
  | none => exact .inl rfl
  | some s => exact .inr ⟨s, rfl⟩

end AccessControl
