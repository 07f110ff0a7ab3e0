import AccessControl.Proofs.Database.Answers
import AccessControl.Proofs.Database.Rows
import AccessControl.Proofs.Hierarchy.Cycles
import AccessControl.Proofs.Session.Edges
import Mathlib

/-! # Hierarchies stay acyclic

Edges may be added active or inactive, switched and removed in any order, and calls may be refused,
fail half way or be given up.  Whatever happens, no role comes to stand below itself in the active
hierarchy of a store, and no two roles are joined twice there (`soundEdges_run`): every change that
lets an edge count has looked for the cycles that the edge would close with the active edges of that
moment (`soundEdges_change`). -/

namespace AccessControl

open Database

/-! ### Sound hierarchies -/

/-- Rows differ in their numbers and in what they join, no edge joins a role to itself, and no path
of active edges of a store leads from a role back to it. -/
structure Database.Tables.SoundEdges (t : Tables) : Prop where
  ids : Table.edges.Keyed t.edges
  once : t.edges.Pairwise fun e f => (e.higher, e.lower, e.store) ≠ (f.higher, f.lower, f.store)
  loopless : ∀ e ∈ t.edges, e.higher ≠ e.lower
  acyclic : ∀ store role, ¬ Relation.TransGen (t.Manages store) role role

namespace Session

theorem manages_joined (t : Tables) (h l store a b : ℤ) :
    (joined t h l store).Manages a b ↔ t.Manages store a b ∨ (a = h ∧ b = l) := by
  rw [joined, RoleGraph.manages_addEdge, Tables.manages_graphOf]

theorem acyclic_joined {t : Tables} {h l store : ℤ}
    (hnone : (joined t h l store).findCycle = none) :
    (joined t h l store).Acyclic :=
  RoleGraph.acyclic_of_findCycle (RoleGraph.wellFormed_addEdge (RoleGraph.wellFormed_ofEdges _) h l)
    hnone

theorem acyclic_of_le {t t' : Tables} {store : ℤ}
    (ht : ∀ role, ¬ Relation.TransGen (t.Manages store) role role)
    (hle : ∀ a b, t'.Manages store a b → t.Manages store a b) (role : ℤ) :
    ¬ Relation.TransGen (t'.Manages store) role role :=
  fun hcycle => ht role (Relation.TransGen.mono hle role role hcycle)

theorem acyclic_of_joined {t t' : Tables} {h l store : ℤ}
    (ht : ∀ store role, ¬ Relation.TransGen (t.Manages store) role role)
    (hnone : (joined t h l store).findCycle = none)
    (hle : ∀ st a b, t'.Manages st a b → t.Manages st a b ∨ (st = store ∧ a = h ∧ b = l))
    (st role : ℤ) :
    ¬ Relation.TransGen (t'.Manages st) role role := by
  by_cases hst : st = store
  · subst hst
    have hsub : t'.Manages st ≤ (joined t h l st).Manages := fun a b hab =>
      (manages_joined t h l st a b).mpr ((hle st a b hab).imp_right And.right)
    exact fun hcycle => acyclic_joined hnone role (Relation.TransGen.mono hsub role role hcycle)
  · exact acyclic_of_le (ht st) (fun a b hab => (hle st a b hab).resolve_right fun hnew =>
      hst hnew.1) role

/-- A new edge keeps a hierarchy sound when the search finds no cycle through it. -/
theorem soundEdges_insert {t t' : Tables} {row : EdgeRow} (ht : t.SoundEdges)
    (hne : row.higher ≠ row.lower)
    (hcycle : (joined t row.higher row.lower row.store).findCycle = none)
    (hinsert : Table.edges.insert t row = .ok t') : t'.SoundEdges := by
  obtain ⟨hadmits, rfl⟩ := Table.insert_eq_ok _ hinsert
  have hperm : (Table.edges.withRows t (Table.edges.place row (Table.edges.rows t))).edges.Perm
      (row :: t.edges) :=
    Table.place_perm Table.edges row t.edges
  have hnew : ∀ e ∈ t.edges, row.id ≠ e.id ∧
      (row.higher, row.lower, row.store) ≠ (e.higher, e.lower, e.store) := by
    intro e he
    obtain ⟨hid, hclash⟩ := Table.ne_of_admits _ hadmits e he
    refine ⟨Ne.symm hid, fun hsame => ?_⟩
    simp only [Prod.mk.injEq] at hsame
    simp [Table.edges, EdgeRow.links, hsame] at hclash
  refine ⟨?_, ?_, fun e he => ?_, ?_⟩
  · exact ht.ids.place fun e he => Ne.symm (hnew e he).1
  · exact (hperm.pairwise_iff fun h => Ne.symm h).mpr
      (List.pairwise_cons.mpr ⟨fun e he => (hnew e he).2, ht.once⟩)
  · rcases List.mem_cons.mp (hperm.mem_iff.mp he) with rfl | he
    · exact hne
    · exact ht.loopless e he
  · refine acyclic_of_joined ht.acyclic hcycle ?_
    rintro st a b ⟨e, he, hs, hactive, ha, hb⟩
    rcases List.mem_cons.mp (hperm.mem_iff.mp he) with rfl | he
    · exact .inr ⟨hs.symm, ha.symm, hb.symm⟩
    · exact .inl ⟨e, he, hs, hactive, ha, hb⟩

theorem soundEdges_sublist {t t' : Tables} (ht : t.SoundEdges) (hsub : t'.edges.Sublist t.edges) :
    t'.SoundEdges := by
  refine ⟨(hsub.map _).nodup ht.ids, ht.once.sublist hsub,
    fun e he => ht.loopless e (hsub.subset he), fun st => ?_⟩
  refine acyclic_of_le (ht.acyclic st) ?_
  rintro a b ⟨e, he, hs, hactive, ha, hb⟩
  exact ⟨e, hsub.subset he, hs, hactive, ha, hb⟩

theorem swapIn_eq {t : Tables} (ht : t.SoundEdges) {row e : EdgeRow} (hrow : row ∈ t.edges)
    (he : e ∈ t.edges) (flag : Bool) : Table.edges.swapIn { row with isActive := flag } e =
      if e.id = row.id then { e with isActive := flag } else e := by
  by_cases hid : e.id = row.id
  · obtain rfl : e = row := ht.ids.eq_of_id he hrow hid
    simp [Table.swapIn, Table.edges]
  · rw [if_neg hid]
    exact Table.swapIn_of_ne hid

/-- A hierarchy stays sound when an edge is switched off, and when it is switched on and the search
finds no cycle through it. -/
theorem soundEdges_switch {t : Tables} {row : EdgeRow} {flag : Bool} (ht : t.SoundEdges)
    (hrow : row ∈ t.edges)
    (hcycle : flag = true → (joined t row.higher row.lower row.store).findCycle = none) :
    (Table.edges.replace t { row with isActive := flag }).SoundEdges := by
  have hedges : (Table.edges.replace t { row with isActive := flag }).edges =
      t.edges.map (Table.edges.swapIn { row with isActive := flag }) := rfl
  have hkept : ∀ e ∈ t.edges, let e' := Table.edges.swapIn { row with isActive := flag } e
      e'.id = e.id ∧ e'.higher = e.higher ∧ e'.lower = e.lower ∧ e'.store = e.store := by
    intro e he
    rw [swapIn_eq ht hrow he]
    split <;> exact ⟨rfl, rfl, rfl, rfl⟩
  refine ⟨?_, ?_, ?_, ?_⟩
  · exact ht.ids.swapIn _
  · rw [hedges]
    refine List.pairwise_map.mpr (ht.once.imp_of_mem fun {e f} he hf h => ?_)
    obtain ⟨-, heh, hel, hes⟩ := hkept e he
    obtain ⟨-, hfh, hfl, hfs⟩ := hkept f hf
    rwa [heh, hel, hes, hfh, hfl, hfs]
  · rw [hedges]
    intro e' he'
    obtain ⟨e, he, rfl⟩ := List.mem_map.mp he'
    obtain ⟨-, hh, hl, -⟩ := hkept e he
    rw [hh, hl]
    exact ht.loopless e he
  · -- An active edge was active before, unless it is the one that is switched on.
    have hactive : ∀ st a b, (Table.edges.replace t { row with isActive := flag }).Manages st a b →
        t.Manages st a b ∨ (flag = true ∧ st = row.store ∧ a = row.higher ∧ b = row.lower) := by
      rintro st a b ⟨e', he', hs, hon, ha, hb⟩
      obtain ⟨e, he, rfl⟩ := List.mem_map.mp (hedges ▸ he')
      obtain ⟨-, hh, hl, hst⟩ := hkept e he
      rw [hst] at hs
      rw [hh] at ha
      rw [hl] at hb
      rw [swapIn_eq ht hrow he] at hon
      split at hon
      · next hid =>
          obtain rfl : e = row := ht.ids.eq_of_id he hrow hid
          exact .inr ⟨hon, hs.symm, ha.symm, hb.symm⟩
      · exact .inl ⟨e, he, hs, hon, ha, hb⟩
    cases flag with
    | false =>
        exact fun st => acyclic_of_le (ht.acyclic st) fun a b hab =>
          (hactive st a b hab).resolve_right (by simp)
    | true =>
        exact acyclic_of_joined ht.acyclic (hcycle rfl) fun st a b hab =>
          (hactive st a b hab).imp_right And.right

/-- Every change of an edge keeps a hierarchy sound. -/
theorem soundEdges_change {store : ℤ} {t t' : Tables} (hchange : EdgeChange store t t')
    (ht : t.SoundEdges) :
    t'.SoundEdges := by
  cases hchange with
  | added row _ hstore hne hfree hcycle hinsert =>
      exact soundEdges_insert ht hne (hstore ▸ hcycle) hinsert
  | removed row hmem hstore => exact soundEdges_sublist ht List.filter_sublist
  | switched row flag hmem hstore hcycle => exact soundEdges_switch ht hmem (hstore ▸ hcycle)

/-! ### Runs -/

/-- Something that happens to a session: a call of the hierarchy with a cache or without, or the
end of a unit of work. -/
inductive HierarchyEvent where
  | call (cached : Bool) (call : HierarchyCall)
  | commit
  | rollback
  | reopen

/-- The session after an event. -/
def afterHierarchyEvent (s : Session) : HierarchyEvent → Session
  | .call cached call => afterHierarchyCall cached call s
  | .commit => s.commit
  | .rollback => s.rollback
  | .reopen => s.reopen

theorem tables_afterEdges (cached : Bool) (store : ℤ) (t : Tables) (s : Session) :
    (afterEdges cached store t s).tables = t ∧ (afterEdges cached store t s).saved = s.saved := by
  unfold afterEdges hierarchyChanged
  rw [outcome_bind, outcome_modifyThe, andThen_ok]
  cases cached with
  | false => exact ⟨rfl, rfl⟩
  | true =>
      rw [if_pos rfl, outcome_bind, outcome_onCache]
      rcases outcome (Cache.bumpStoreEpoch (.int store)) _ with ⟨_ | _, _⟩ <;> exact ⟨rfl, rfl⟩

/-- A session whose hierarchy is sound, now and as it was saved. -/
structure Sound (s : Session) : Prop where
  tables : s.tables.SoundEdges
  saved : s.saved.SoundEdges

theorem sound_step {cached : Bool} {store : ℤ} {s s' : Session} (hstep : EdgeStep cached store s s')
    (hs : s.Sound) :
    s'.Sound := by
  rcases hstep with hnoted | ⟨t, hchange, hnoted⟩
  · exact ⟨hnoted.tables ▸ hs.tables, hnoted.saved ▸ hs.saved⟩
  · obtain ⟨htables, hsaved⟩ := tables_afterEdges cached store t s
    constructor
    · rw [hnoted.tables, htables]
      exact soundEdges_change hchange hs.tables
    · rw [hnoted.saved, hsaved]
      exact hs.saved

theorem sound_event (s : Session) (event : HierarchyEvent) (hs : s.Sound) :
    (afterHierarchyEvent s event).Sound := by
  cases event with
  | call cached call => exact sound_step (step_hierarchyCall cached call s) hs
  | commit => exact ⟨hs.tables, hs.tables⟩
  | rollback => exact ⟨hs.saved, hs.saved⟩
  | reopen => exact ⟨hs.saved, hs.saved⟩

theorem soundEdges_nil {t : Tables} (h : t.edges = []) : t.SoundEdges := by
  have hnone : ∀ store a b, ¬ t.Manages store a b := fun store a b ⟨e, he, _⟩ => by simp [h] at he
  refine ⟨by simp [Table.Keyed, h], by simp [h], by simp [h], fun store role hcycle => ?_⟩
  obtain ⟨b, hab, -⟩ := Relation.TransGen.head'_iff.mp hcycle
  exact hnone store role b hab

/-- Whatever calls are made and whatever becomes of them, a hierarchy that begins without edges is
sound: the active edges of every store form an acyclic graph without loops, and no two rows join the
same roles in a store. -/
theorem soundEdges_run (s : Session) (htables : s.tables.edges = []) (hsaved : s.saved.edges = [])
    (events : List HierarchyEvent) : (events.foldl afterHierarchyEvent s).tables.SoundEdges := by
  have hsound : (events.foldl afterHierarchyEvent s).Sound := by
    refine List.foldlRecOn (motive := Sound) events afterHierarchyEvent ⟨soundEdges_nil htables,
      soundEdges_nil hsaved⟩ ?_
    exact fun s hs event _ => sound_event s event hs
  exact hsound.tables

/-- Two roles in a store, over an empty cache. -/
def twoRoles : Session :=
  let tables : Tables :=
    { Tables.empty with
      roles := [⟨1, "head", none⟩, ⟨2, "staff", none⟩]
      stores := [⟨1, "A", "Store A", .null, true⟩] }
  { Session.start .standard ⟨.memory [], "authz", 0, [1], []⟩ with
    tables := tables, saved := tables }

/-- An edge back that is added inactive, and then switched on. -/
theorem soundEdges_run_twoRoles : twoRoles.tables.edges = [] ∧ twoRoles.saved.edges = [] ∧
    ([.call true (.add 1 2 1 .null true), .call true (.add 2 1 1 .null false), .commit,
      .call true (.activate 2 1 1 true), .rollback].foldl afterHierarchyEvent
        twoRoles).tables.SoundEdges :=
  ⟨rfl, rfl, soundEdges_run twoRoles rfl rfl _⟩

end Session
end AccessControl
