import AccessControl.Proofs.Hierarchy.Acyclic
import AccessControl.Proofs.Session.Requests
import Mathlib

/-! # Edges through all moves of a session

Tables are `Linked` when their edges form sound hierarchies, stand in the order of their numbers,
and join roles of stores that are there.  A change of an edge keeps tables linked (`linked_change`),
and whatever else is done to a session changes neither the edges nor what they join.  So tables that
begin without edges are linked after any moves (`Unlinked.linked`). -/

namespace AccessControl

open Database

/-! ### Tables -/

/-- The edges form sound hierarchies, stand in the order of their numbers, and join roles of stores
that are there.  The roles and the stores have numbers that the database can hold. -/
structure Database.Tables.Linked (t : Tables) : Prop where
  sound : t.SoundEdges
  ascending : Table.edges.Ascending t.edges
  ends : ∀ e ∈ t.edges, t.hasRole e.higher = true ∧ t.hasRole e.lower = true ∧
      t.hasStore e.store = true
  roles : ∀ n, t.hasRole n = true → fits n
  stores : ∀ n, t.hasStore n = true → fits n

/-- Two databases have the same edges, roles and stores. -/
structure Database.Tables.SameLinks (t t' : Tables) : Prop where
  edges : t'.edges = t.edges
  roles : t'.roles = t.roles
  stores : t'.stores = t.stores

theorem Database.Tables.SameLinks.refl (t : Tables) : t.SameLinks t := ⟨rfl, rfl, rfl⟩

namespace Session

variable {shared : Bool} {left : ℕ} {s s' : Session} {m : Cache.View} {t t' : Tables}

theorem soundEdges_congr (ht : t.SoundEdges) (hedges : t'.edges = t.edges) : t'.SoundEdges :=
  soundEdges_sublist ht (hedges ▸ List.Sublist.refl _)

theorem linked_same (ht : t.Linked) (h : t.SameLinks t') : t'.Linked := by
  have hrole : ∀ n, t'.hasRole n = t.hasRole n :=
    fun n => by rw [Tables.hasRole, Tables.hasRole, h.roles]
  have hstore : ∀ n, t'.hasStore n = t.hasStore n :=
    fun n => by rw [Tables.hasStore, Tables.hasStore, h.stores]
  refine ⟨soundEdges_congr ht.sound h.edges, h.edges ▸ ht.ascending, fun e he => ?_, fun n hn => ?_,
    fun n hn => ?_⟩
  · rw [hrole, hrole, hstore]
    exact ht.ends e (h.edges ▸ he)
  · exact ht.roles n (hrole n ▸ hn)
  · exact ht.stores n (hstore n ▸ hn)

/-- A change of an edge keeps tables linked. -/
theorem linked_change {store : ℤ} (ht : t.Linked) (hchange : EdgeChange store t t') :
    t'.Linked := by
  have hsound := soundEdges_change hchange ht.sound
  have hrest := (hchange.frame ht.sound.ids).rest
  have hrole : ∀ n, t'.hasRole n = t.hasRole n := fun n => by rw [hrest]; rfl
  have hstore : ∀ n, t'.hasStore n = t.hasStore n := fun n => by rw [hrest]; rfl
  suffices hedges : Table.edges.Ascending t'.edges ∧
      ∀ e ∈ t'.edges, t.hasRole e.higher = true ∧ t.hasRole e.lower = true ∧
        t.hasStore e.store = true by
    refine ⟨hsound, hedges.1, fun e he => ?_, fun n hn => ht.roles n (hrole n ▸ hn),
      fun n hn => ht.stores n (hstore n ▸ hn)⟩
    rw [hrole, hrole, hstore]
    exact hedges.2 e he
  cases hchange with
  | added row _ _ _ _ _ hinsert =>
      obtain ⟨hadmits, rfl⟩ := Table.insert_eq_ok _ hinsert
      refine ⟨ht.ascending.place fun e he => (Table.ne_of_admits _ hadmits e he).1, fun e he => ?_⟩
      rcases List.mem_cons.mp ((Table.place_perm Table.edges row t.edges).mem_iff.mp he) with
        rfl | he
      · have hgrounded := ((Bool.and_eq_true _ _).mp hadmits).2
        simpa [Table.edges, and_assoc] using hgrounded
      · exact ht.ends e he
  | removed row _ _ =>
      exact ⟨ht.ascending.filter _, fun e he => ht.ends e (List.mem_filter.mp he).1⟩
  | switched row flag hmem _ _ =>
      refine ⟨ht.ascending.swapIn _, fun e' he' => ?_⟩
      obtain ⟨e, he, rfl⟩ := List.mem_map.mp he'
      -- The row that is switched joins what it joined before.
      have hkept : Table.edges.swapIn { row with isActive := flag } e =
          if e.id = row.id then
            { e with isActive := flag }
          else e := swapIn_eq ht.sound hmem he flag
      change t.hasRole (Table.edges.swapIn { row with isActive := flag } e).higher = true ∧
        t.hasRole (Table.edges.swapIn { row with isActive := flag } e).lower = true ∧
        t.hasStore (Table.edges.swapIn { row with isActive := flag } e).store = true
      rw [hkept]
      split
      · exact ht.ends e he
      · exact ht.ends e he

theorem linked_nil (hedges : t.edges = []) (hroles : ∀ n, t.hasRole n = true → fits n)
    (hstores : ∀ n, t.hasStore n = true → fits n) : t.Linked where
  sound := soundEdges_nil hedges
  ascending := by
    rw [hedges]
    exact .nil
  ends e he := absurd (hedges ▸ he) List.not_mem_nil
  roles := hroles
  stores := hstores

/-! ### Moves -/

/-- The tables of a session are linked, now and as they were saved. -/
structure Linked (s : Session) : Prop where
  tables : s.tables.Linked
  saved : s.saved.Linked

theorem Linked.same (hs : s.Linked) (h : s.tables.SameLinks s'.tables)
    (hsaved : s'.saved = s.saved) : s'.Linked :=
  ⟨linked_same hs.tables h, hsaved ▸ hs.saved⟩

theorem Linked.kept (hs : s.Linked) (h : Kept s s') : s'.Linked :=
  hs.same (h.tables ▸ .refl _) h.saved

theorem Linked.noted (hs : s.Linked) (h : Noted s s') : s'.Linked :=
  hs.same (h.tables ▸ .refl _) h.saved

theorem linked_edgeStep {cached : Bool} {store : ℤ} (hstep : EdgeStep cached store s s')
    (hs : s.Linked) : s'.Linked := by
  rcases hstep with hnoted | ⟨t, hchange, hnoted⟩
  · exact hs.noted hnoted
  · obtain ⟨htables, hsaved⟩ := tables_afterEdges cached store t s
    have hafter : (afterEdges cached store t s).Linked := by
      constructor
      · rw [htables]
        exact linked_change hs.tables hchange
      · rw [hsaved]
        exact hs.saved
    exact hafter.noted hnoted

theorem sameLinks_assignment {user store : ℤ} (h : AssignmentChange user store t t') :
    t.SameLinks t' := by
  cases h with
  | added row _ _ _ hinsert =>
      obtain ⟨-, rfl⟩ := Table.insert_eq_ok _ hinsert
      exact ⟨rfl, rfl, rfl⟩
  | removed => exact ⟨rfl, rfl, rfl⟩
  | switched => exact ⟨rfl, rfl, rfl⟩

theorem linked_assignmentStep {cached : Bool} {user store : ℤ}
    (hstep : AssignmentStep cached user store s s') (hs : s.Linked) : s'.Linked := by
  rcases hstep with hnoted | ⟨t, hchange, hnoted⟩
  · exact hs.noted hnoted
  · have hafter : (afterAssignments cached user store t s).Linked := by
      have hsame := sameLinks_assignment hchange
      unfold afterAssignments forgetUser
      cases cached with
      | false => exact hs.same hsame rfl
      | true => exact hs.same hsame rfl
    exact hafter.noted hnoted

theorem linked_assignmentCall (hs : s.Linked) (cached : Bool) (call : AssignmentCall) :
    (afterAssignmentCall cached call s).Linked := by
  have hsteps := steps_assignmentCall cached call s
  generalize afterAssignmentCall cached call s = s' at hsteps
  induction hsteps with
  | refl => exact hs
  | tail _ hstep ih =>
      obtain ⟨store, hstep⟩ := hstep
      exact linked_assignmentStep hstep ih

theorem linked_ruleCall (hs : s.Linked) (call : RuleCall) : (afterRuleCall call s).Linked := by
  have honly := (path_ruleCall call s).onlyRules
  refine hs.same ?_ honly.saved
  rw [honly.rest]
  exact ⟨rfl, rfl, rfl⟩

theorem linked_event (h : Orderly shared left s m) (hs : s.Linked) (event : Event) :
    (s.afterEvent event).Linked := by
  cases event with
  | hierarchy call => exact linked_edgeStep (step_hierarchyCall true call s) hs
  | assignment call => exact linked_assignmentCall hs true call
  | query query =>
      obtain ⟨-, hconsulted, -⟩ := orderly_query h query
      exact hs.kept hconsulted.kept
  | advance seconds => exact ⟨hs.tables, hs.saved⟩
  | commit => exact ⟨hs.tables, hs.tables⟩

/-- Whatever is done to an orderly session keeps it linked. -/
theorem linked_move (h : Orderly shared left s m) (hs : s.Linked) {move : Move}
    (hmove : move.Delivered) :
    (s.afterMove move).Linked := by
  cases move with
  | action action =>
      cases action with
      | rules call => exact linked_ruleCall hs call
      | authorize request user roles permissions abilities =>
          have huser := callerOf_userId user roles permissions abilities
          obtain ⟨-, hconsulted, -⟩ := (ends_authorize huser hmove true h).after
          exact hs.kept hconsulted.kept
      | event event => exact linked_event h hs event
  | hierarchy call => exact linked_edgeStep (step_hierarchyCall false call s) hs
  | assignment call => exact linked_assignmentCall hs false call
  | permissions user store =>
      obtain ⟨-, hconsulted, -⟩ := (ends_effectivePermissions h false user store).after
      exact hs.kept hconsulted.kept
  | find service method =>
      obtain ⟨-, hconsulted, -⟩ := (ends_find h service method).after
      exact hs.kept hconsulted.kept
  | rollback => exact ⟨hs.saved, hs.saved⟩
  | reopen => exact ⟨hs.saved, hs.saved⟩

theorem linked_moves {moves : List Move} (hmoves : ∀ move ∈ moves, move.Delivered)
    (h : Orderly shared (methods.length * moves.length + left) s m) (hs : s.Linked) :
    (s.afterMoves moves).Linked := by
  induction moves generalizing s m with
  | nil => exact hs
  | cons move moves ih =>
      obtain ⟨hmove, hrest⟩ := List.forall_mem_cons.mp hmoves
      rw [List.length_cons, Nat.mul_succ, Nat.add_right_comm] at h
      obtain ⟨m₁, h₁⟩ := orderly_move h hmove
      exact ih hrest h₁ (linked_move h hs hmove)

/-! ### Sessions without edges -/

/-- A fresh session without edges, ready for some moves and for one more call of the hierarchy.  Its
roles and its stores have numbers that the database can hold. -/
structure Unlinked (shared : Bool) (s : Session) (moves : List Move) : Prop where
  ready : ∀ call, Ready shared s (moves ++ [.hierarchy call])
  edges : s.tables.edges = []
  roles : ∀ n, s.tables.hasRole n = true → fits n
  stores : ∀ n, s.tables.hasStore n = true → fits n

/-- After the moves, the tables are linked, and there is room for one more call. -/
theorem Unlinked.linked {moves : List Move} (h : Unlinked shared s moves) :
    (s.afterMoves moves).Linked ∧ ∃ m, Orderly shared 1 (s.afterMoves moves) m := by
  have hready := h.ready (.remove 0 0 0)
  have hmoves : ∀ move ∈ moves, move.Delivered :=
    fun move hmove => hready.delivered move (List.mem_append_left _ hmove)
  have hstart : Orderly shared (methods.length * moves.length + 1) s fun _ => none := by
    refine hready.start.mono ?_
    rw [List.length_append, List.length_singleton, Nat.mul_succ]
    exact Nat.add_le_add_left (by decide) _
  have hlinked : s.tables.Linked := linked_nil h.edges h.roles h.stores
  exact ⟨linked_moves hmoves hstart ⟨hlinked, hready.saved ▸ hlinked⟩, orderly_moves hmoves hstart⟩

end Session
end AccessControl
