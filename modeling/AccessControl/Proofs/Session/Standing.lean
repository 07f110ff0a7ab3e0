import AccessControl.Proofs.Hierarchy.Linked
import AccessControl.Proofs.Hierarchy.Ranks
import AccessControl.Proofs.Session.Isolation
import Mathlib

/-! # Who stands above whom

The moves of a session that began without edges leave it `Reliable`: its hierarchies are acyclic and
the graphs that it keeps are true, unless changes were given up and the session was not begun anew
since (`Renewed`).  Then one role is above another when a search of the active edges reaches it,
which orders the roles of a store strictly as far as the depth of the search goes
(`isAbove_strictOrder`).

One user may act on another when a role of the first, assigned or below an assigned one, is above
such a role of the second.  As a superior has the roles of a subordinate and all below them, the
subordinate may act on the superior whenever one of these has a role below it
(`canAct_subordinate`). -/

namespace AccessControl
namespace Session

open Cache Database

variable {shared : Bool} {left : ℕ} {s : Session} {m : View} {moves : List Move} {st : ℤ} {α : Type}

/-! ### Reliable sessions -/

/-- Whenever changes are given up while the session goes on, it is begun anew later. -/
def Renewed (moves : List Move) : Prop :=
  ∀ before after, moves = before ++ .rollback :: after → .reopen ∈ after

theorem renewed_of_forall (hmoves : ∀ move ∈ moves, move ≠ .rollback) : Renewed moves := by
  rintro before after rfl
  exact absurd rfl (hmoves .rollback (by simp))

theorem Renewed.init {move : Move} (h : Renewed (moves ++ [move])) (hmove : move ≠ .reopen) :
    Renewed moves ∧ move ≠ .rollback := by
  constructor
  · rintro before after rfl
    have hmem := h before (after ++ [move]) (by simp)
    simpa [hmove.symm] using hmem
  · rintro rfl
    exact absurd (h moves [] rfl) List.not_mem_nil

/-- The graphs that are kept are true again once the session is begun anew. -/
theorem truth_renewed (h : Orderly shared (methods.length * moves.length + left) s m)
    (hs : TrueGraphs s) (hdelivered : ∀ move ∈ moves, move.Delivered) (hrenewed : Renewed moves) :
    TrueGraphs (s.afterMoves moves) := by
  induction moves using List.reverseRecOn generalizing left with
  | nil => exact hs
  | append_singleton moves move ih =>
      rw [afterMoves_concat]
      by_cases hmove : move = .reopen
      · subst hmove
        exact fun kept hkept => absurd hkept List.not_mem_nil
      · obtain ⟨hinit, hkeeps⟩ := hrenewed.init hmove
        have hdelivered' : ∀ move ∈ moves, move.Delivered :=
          fun move hmem => hdelivered move (List.mem_append_left _ hmem)
        rw [List.length_append, List.length_singleton, Nat.mul_succ, Nat.add_assoc] at h
        obtain ⟨m₁, h₁⟩ := orderly_moves hdelivered' h
        have hroom : Orderly shared methods.length (s.afterMoves moves) m₁ :=
          h₁.mono (Nat.le_add_right ..)
        exact truth_move (hroom.mono (Nat.zero_le _)) (ih h hdelivered' hinit)
          (hdelivered move (by simp)) hkeeps

/-- A session that keeps true graphs, over tables with sound hierarchies, whose assignments have
numbers of their own. -/
structure Reliable (s : Session) : Prop where
  sound : s.tables.SoundEdges
  assignments : Table.assignments.Keyed s.tables.assignments
  truth : TrueGraphs s

theorem Unlinked.reliable (hs : Unlinked shared s moves) (hrenewed : Renewed moves) :
    (s.afterMoves moves).Reliable := by
  have hready := hs.ready (.remove 0 0 0)
  have hdelivered : ∀ move ∈ moves, move.Delivered :=
    fun move hmem => hready.delivered move (List.mem_append_left _ hmem)
  obtain ⟨hlinked, m, hm⟩ := hs.linked
  refine ⟨hlinked.tables.sound, hm.tables.assignments, ?_⟩
  have hstart : Orderly shared (methods.length * moves.length + methods.length) s fun _ =>
      none := by
    have horderly := hready.start
    rwa [List.length_append, List.length_singleton, Nat.mul_succ] at horderly
  refine truth_renewed hstart (fun kept hkept => ?_) hdelivered hrenewed
  rw [hready.fresh.graphs] at hkept
  cases hkept

/-! ### Answers -/

/-- An empty cache in memory. -/
def emptied : Cache := ⟨.memory [], "authz", 0, [], []⟩

theorem Reliable.coherent (h : s.Reliable) :
    Coherent false 0 (s.withCache emptied) fun _ => none where
  represents := ⟨rfl, List.nodup_nil, fun _ => rfl⟩
  seeds n _ := room_memory 0 n
  graphs := h.truth
  edges := h.sound.ids
  assignments := h.assignments
  tells := .empty fun _ => rfl

/-- As the cache makes no difference to what is local to a store, the answer over an
empty one is the answer. -/
theorem Local.result {operation : SessionM α} (hop : Local st operation) {r : Except Failure α}
    (h : Answers false left operation (s.withCache emptied) r m) : (outcome operation s).1 = r := by
  obtain ⟨s', hrun, -⟩ := h
  rw [← hop.agrees_withCache s emptied, hrun]

theorem answers_isHigher (h : Coherent shared left s m) (role other st : ℤ) :
    Answers shared left (isHigher (.int role) (.int other) (.int st)) s
      (if fits st then
        .ok (((s.tables.graphOf st).descendants role (some s.settings.hierarchyMaxDepth)).contains
          other)
      else .error .range) m := by
  have hlower := answers_lowerRoleIds h role st
  unfold isHigher
  split at hlower
  · next hst =>
      rw [if_pos hst]
      exact answers_bind hlower fun s₁ _ h₁ => answers_outcome h₁ rfl
  · next hst =>
      rw [if_neg hst]
      exact answers_bind_error hlower

theorem answers_managesAny (hst : fits st) (others roles : List ℤ) (h : Coherent shared left s m) :
    Answers shared left (managesAny (.int st) others roles) s
      (.ok ((s.tables.below s.settings.hierarchyMaxDepth st roles).any others.contains)) m := by
  induction roles generalizing s with
  | nil => exact answers_pure h false
  | cons role roles ih =>
      have hlower := answers_lowerRoleIds h role st
      rw [if_pos hst] at hlower
      unfold managesAny
      refine answers_bind hlower fun s₁ hkept h₁ => ?_
      rw [Tables.below, List.flatMap_cons, List.any_append, ← Tables.below]
      split
      · next hsome =>
          rw [hsome, Bool.true_or]
          exact answers_pure h₁ true
      · next hnone =>
          rw [Bool.eq_false_iff.mpr hnone, Bool.false_or, ← hkept.settings, ← hkept.tables]
          exact ih h₁

/-- One user may act on another when one of the roles of the first has one of the roles
of the second below it. -/
theorem answers_canAct {actor target : ℤ} (hactor : fits actor) (htarget : fits target)
    (hst : fits st) (h : Coherent shared left s m) :
    let depth := s.settings.hierarchyMaxDepth
    Answers shared left (canAct (.int actor) (.int target) (.int st)) s
      (.ok ((s.tables.below depth st (s.tables.rolesIn depth actor st)).any
        (s.tables.rolesIn depth target st).contains))
      m := by
  have hmine := answers_effectiveRoleIds h actor st
  rw [if_pos ⟨hactor, hst⟩] at hmine
  unfold canAct
  refine answers_bind hmine fun s₁ hkept h₁ => ?_
  have hothers := answers_effectiveRoleIds h₁ target st
  rw [if_pos ⟨htarget, hst⟩] at hothers
  refine answers_bind hothers fun s₂ hkept' h₂ => ?_
  rw [← hkept.settings, ← hkept.tables, ← hkept'.settings, ← hkept'.tables]
  dsimp only
  split
  · next hempty =>
      have hnone : s₂.tables.rolesIn s₂.settings.hierarchyMaxDepth target st = [] :=
        List.isEmpty_iff.mp hempty
      rw [hnone]
      have hfalse : ∀ roles : List ℤ, roles.any ([] : List ℤ).contains = false :=
        fun roles => by simp
      rw [hfalse]
      exact answers_pure h₂ false
  · exact answers_managesAny hst _ _ h₂

/-! ### Above and below -/

/-- The first role is said to be above the second in a store. -/
def IsAbove (s : Session) (st a b : ℤ) : Prop :=
  (outcome (isHigher (.int a) (.int b) (.int st)) s).1 = .ok true

/-- The user has the role in the store, or has one there from which a path of active edges leads to
it, no longer than the settings look. -/
def HasEffective (s : Session) (user st role : ℤ) : Prop :=
  s.tables.HasRole user st role ∨ ∃ direct n, s.tables.HasRole user st direct ∧ 1 ≤ n ∧
    n ≤ s.settings.hierarchyMaxDepth.toNat ∧ s.tables.Path st n direct role

/-- No path of active edges in the store is longer than the settings look. -/
def Shallow (s : Session) (st : ℤ) : Prop :=
  ∀ n a b, s.tables.Path st n a b → n ≤ s.settings.hierarchyMaxDepth.toNat

variable {a b : ℤ}

theorem manages_graphOf_eq (t : Tables) (st : ℤ) : (t.graphOf st).Manages = t.Manages st := by
  funext a b
  exact propext (t.manages_graphOf st a b)

theorem transGen_graphOf (t : Tables) (st a b : ℤ) :
    Relation.TransGen (t.graphOf st).Manages a b ↔ Relation.TransGen (t.Manages st) a b := by
  rw [manages_graphOf_eq]

theorem acyclic_graphOf {t : Tables} (ht : t.SoundEdges) (st : ℤ) : (t.graphOf st).Acyclic :=
  fun a hcycle => ht.acyclic st a ((transGen_graphOf t st a a).mp hcycle)

namespace Reliable

theorem isHigher (h : s.Reliable) (a b st : ℤ) :
    (outcome (isHigher (.int a) (.int b) (.int st)) s).1 = if fits st then
      .ok (((s.tables.graphOf st).descendants a (some s.settings.hierarchyMaxDepth)).contains b)
        else .error .range :=
  (local_isHigher a b).result (answers_isHigher h.coherent a b st)

/-- One role is above another when a search of the active edges reaches it, in a store whose number
the database can hold. -/
theorem isAbove_iff (h : s.Reliable) : s.IsAbove st a b ↔
    fits st ∧ b ∈ (s.tables.graphOf st).descendants a (some s.settings.hierarchyMaxDepth) := by
  rw [IsAbove, h.isHigher]
  by_cases hst : fits st
  · rw [if_pos hst, Except.ok.injEq, List.contains_iff_mem]
    exact (and_iff_right hst).symm
  · rw [if_neg hst]
    exact ⟨fun herror => absurd herror (by simp), fun habove => absurd habove.1 hst⟩

/-- One role is above another when a path of active edges leads from it to the other, no longer
than the settings look. -/
theorem isAbove_iff_path (h : s.Reliable) : s.IsAbove st a b ↔
    fits st ∧ ∃ n, 1 ≤ n ∧ n ≤ s.settings.hierarchyMaxDepth.toNat ∧ s.tables.Path st n a b := by
  simp only [h.isAbove_iff, RoleGraph.mem_descendants_of_acyclic (acyclic_graphOf h.sound st),
    Tables.steps_graphOf]

theorem transGen_of_isAbove (h : s.Reliable) (habove : s.IsAbove st a b) :
    Relation.TransGen (s.tables.Manages st) a b :=
  (transGen_graphOf ..).mp (RoleGraph.transGen_of_mem_descendants (h.isAbove_iff.mp habove).2)

/-- Where no path is too long to be followed, the roles above a role are those that it is below. -/
theorem isAbove_iff_transGen (h : s.Reliable) (hshallow : s.Shallow st) (hst : fits st) :
    s.IsAbove st a b ↔ Relation.TransGen (s.tables.Manages st) a b := by
  have hdepth : ∀ n a b, (s.tables.graphOf st).Steps n a b →
      n ≤ s.settings.hierarchyMaxDepth.toNat :=
    fun n a b hn => hshallow n a b ((s.tables.steps_graphOf st n a b).mp hn)
  rw [h.isAbove_iff, and_iff_right hst,
    RoleGraph.mem_descendants_iff_transGen (acyclic_graphOf h.sound st) hdepth, transGen_graphOf]

end Reliable

/-! ### A head, a lead and their staff -/

/-- One store, with a head, a lead and staff among the roles, and two users. -/
def threeRoles : Session :=
  let tables : Tables :=
    { oneStore.tables with
      users := [⟨1, "ann", "ann@shop", true⟩, ⟨2, "bob", "bob@shop", true⟩]
      roles := [⟨1, "head", none⟩, ⟨2, "lead", none⟩, ⟨3, "staff", none⟩] }
  { oneStore with tables := tables, saved := tables }

/-- The first user comes to lead the store and the second to head it; then the head is put above the
lead, and the lead above the staff. -/
def ranked : List Move :=
  [.assignment (.assign 1 2 1 .null true), .assignment (.assign 2 1 1 .null true),
   .hierarchy (.add 1 2 1 .null true), .hierarchy (.add 2 3 1 .null true)]

theorem unlinked_threeRoles (hmoves : ∀ move ∈ moves, move.Delivered) :
    Unlinked false threeRoles moves := by
  refine ⟨fun call => ready_memory rfl rfl rfl rfl rfl rfl fun move hmem => ?_, rfl, fun n hn => ?_,
    fun n hn => ?_⟩
  · rcases List.mem_append.mp hmem with hmem | hmem
    · exact hmoves move hmem
    · rw [List.mem_singleton.mp hmem]
      trivial
  · have hroles : (1 == n || (2 == n || (3 == n || false))) = true := hn
    obtain rfl | rfl | rfl : 1 = n ∨ 2 = n ∨ 3 = n := by simpa using hroles
    all_goals decide
  · have hstores : (1 == n || false) = true := hn
    obtain rfl : 1 = n := by simpa using hstores
    decide

theorem unlinked_ranked : Unlinked false threeRoles ranked :=
  unlinked_threeRoles (by simp [ranked, Move.Delivered])

theorem renewed_ranked : Renewed ranked := renewed_of_forall (by simp [ranked])

set_option maxRecDepth 4000 in
theorem edges_ranked :
    (threeRoles.afterMoves ranked).tables.edges.map (fun e =>
      (e.store, e.isActive, e.higher, e.lower)) =
    [(1, true, 1, 2), (1, true, 2, 3)] := by cbv

theorem manages_ranked {a b : ℤ} :
    (threeRoles.afterMoves ranked).tables.Manages 1 a b ↔ (a = 1 ∧ b = 2) ∨ (a = 2 ∧ b = 3) := by
  have hmem : (threeRoles.afterMoves ranked).tables.Manages 1 a b ↔ ((1 : ℤ), true, a, b) ∈
      (threeRoles.afterMoves ranked).tables.edges.map fun e =>
        (e.store, e.isActive, e.higher, e.lower) := by
    simp [Tables.Manages]
  rw [hmem, edges_ranked]
  simp

theorem depth_ranked : (threeRoles.afterMoves ranked).settings.hierarchyMaxDepth.toNat = 16 := by
  cbv

theorem shallow_ranked : (threeRoles.afterMoves ranked).Shallow 1 := by
  intro n a b hab
  by_contra hlong
  rw [depth_ranked] at hlong
  obtain ⟨k, rfl⟩ : ∃ k, n = k + 3 := ⟨n - 3, by omega⟩
  obtain ⟨c, ⟨d, ⟨e, -, hed⟩, hdc⟩, hcb⟩ := hab
  have hfirst := manages_ranked.mp hed
  have hsecond := manages_ranked.mp hdc
  have hthird := manages_ranked.mp hcb
  omega

/-! ### The order of roles -/

/-- After any moves of a session that began without edges, and is begun anew when changes were given
up, every question which of two roles of a store is above the other is answered: the one from which
a path of active edges leads to the other, no longer than the settings look.  No role is above
itself and no two are above each other; and where no path is longer than that, what is below a lower
role is below the upper one. -/
theorem isAbove_strictOrder (s : Session) (moves : List Move) (hs : Unlinked shared s moves)
    (hrenewed : Renewed moves) (st : ℤ) :
    let s' := s.afterMoves moves
    (fits st →
      ∀ a b, ∃ answer, (outcome (isHigher (.int a) (.int b) (.int st)) s').1 = .ok answer) ∧
      (∀ a b, s'.IsAbove st a b ↔
        fits st ∧ ∃ n, 1 ≤ n ∧ n ≤ s'.settings.hierarchyMaxDepth.toNat ∧ s'.tables.Path st n a b) ∧
      (∀ a, ¬ s'.IsAbove st a a) ∧
      (∀ a b, s'.IsAbove st a b → ¬ s'.IsAbove st b a) ∧
      (s'.Shallow st → ∀ a b c, s'.IsAbove st a b → s'.IsAbove st b c → s'.IsAbove st a c) := by
  intro s'
  have h : s'.Reliable := hs.reliable hrenewed
  have hasymm : ∀ a b, s'.IsAbove st a b → ¬ s'.IsAbove st b a := fun a b hab hba =>
    RoleGraph.not_mem_descendants_of_mem (acyclic_graphOf h.sound st) (h.isAbove_iff.mp hab).2
      (h.isAbove_iff.mp hba).2
  refine ⟨fun hst a b => ⟨_, (h.isHigher a b st).trans (if_pos hst)⟩, fun a b => h.isAbove_iff_path,
    fun a ha => hasymm a a ha ha, hasymm, ?_⟩
  intro hshallow a b c hab hbc
  have hst : fits st := (h.isAbove_iff.mp hab).1
  exact (h.isAbove_iff_transGen hshallow hst).mpr
    ((h.transGen_of_isAbove hab).trans (h.transGen_of_isAbove hbc))

theorem isAbove_strictOrder_ranked :
    let s := threeRoles.afterMoves ranked
    s.IsAbove 1 1 2 ∧ s.IsAbove 1 2 3 ∧ s.IsAbove 1 1 3 ∧ ¬ s.IsAbove 1 3 1 := by
  intro s
  obtain ⟨-, hpath, -, hasymm, htrans⟩ :=
    isAbove_strictOrder threeRoles ranked unlinked_ranked renewed_ranked 1
  have hdepth : 1 ≤ s.settings.hierarchyMaxDepth.toNat :=
    le_of_le_of_eq (by decide) depth_ranked.symm
  have habove : ∀ a b, s.tables.Manages 1 a b → s.IsAbove 1 a b :=
    fun a b hab => (hpath a b).mpr ⟨by decide, 1, le_refl 1, hdepth, a, rfl, hab⟩
  have hlead : s.IsAbove 1 1 2 := habove 1 2 (manages_ranked.mpr (.inl ⟨rfl, rfl⟩))
  have hstaff : s.IsAbove 1 2 3 := habove 2 3 (manages_ranked.mpr (.inr ⟨rfl, rfl⟩))
  have hhead : s.IsAbove 1 1 3 := htrans shallow_ranked 1 2 3 hlead hstaff
  exact ⟨hlead, hstaff, hhead, hasymm 1 3 hhead⟩

/-! ### Users -/

/-- Each role of the first user in the store is below a role of the second one there. -/
def Subordinate (t : Tables) (st a b : ℤ) : Prop :=
  ∀ role, t.HasRole a st role → ∃ upper, t.HasRole b st upper ∧
    Relation.TransGen (t.Manages st) upper role

theorem transGen_of_path {t : Tables} {n : ℕ} (hn : 0 < n) (hpath : t.Path st n a b) :
    Relation.TransGen (t.Manages st) a b :=
  (transGen_graphOf ..).mp (RoleGraph.transGen_of_steps hn ((t.steps_graphOf st n a b).mpr hpath))

theorem HasEffective.direct {user role : ℤ} (h : s.HasEffective user st role) :
    ∃ direct, s.tables.HasRole user st direct ∧
      Relation.ReflTransGen (s.tables.Manages st) direct role := by
  rcases h with hrole | ⟨direct, n, hdirect, hn, -, hpath⟩
  · exact ⟨role, hrole, .refl⟩
  · exact ⟨direct, hdirect, (transGen_of_path hn hpath).to_reflTransGen⟩

theorem Shallow.hasEffective (h : s.Shallow st) {user role lower : ℤ}
    (hrole : s.tables.HasRole user st role)
    (hlower : Relation.TransGen (s.tables.Manages st) role lower) :
    s.HasEffective user st lower := by
  obtain ⟨n, hn, hsteps⟩ := RoleGraph.steps_of_transGen ((transGen_graphOf ..).mpr hlower)
  have hpath := (s.tables.steps_graphOf st n role lower).mp hsteps
  exact .inr ⟨role, n, hrole, hn, h n role lower hpath, hpath⟩

theorem HasEffective.manages {user role lower : ℤ} (h : s.HasEffective user st role)
    (hlower : Relation.TransGen (s.tables.Manages st) role lower) :
    ∃ direct lower, s.tables.HasRole user st direct ∧ s.tables.Manages st direct lower := by
  obtain ⟨direct, hdirect, hreach⟩ := h.direct
  obtain ⟨next, hnext, -⟩ :=
    Relation.TransGen.head'_iff.mp (Relation.TransGen.trans_right hreach hlower)
  exact ⟨direct, next, hdirect, hnext⟩

/-- One user may act on another when an effective role of the first is above one of the second. -/
theorem Reliable.canAct (h : s.Reliable) (ha : fits a) (hb : fits b) (hst : fits st) :
    ∃ answer, (outcome (canAct (.int a) (.int b) (.int st)) s).1 = .ok answer ∧
      (answer = true ↔ ∃ mine others, s.HasEffective a st mine ∧ s.HasEffective b st others ∧
        s.IsAbove st mine others) := by
  refine ⟨_, (local_canAct a b).result (answers_canAct ha hb hst h.coherent), ?_⟩
  have heffective : ∀ user role, role ∈ s.tables.rolesIn s.settings.hierarchyMaxDepth user st ↔
      s.HasEffective user st role := fun user role => Tables.mem_rolesIn
  change List.any
    (s.tables.below s.settings.hierarchyMaxDepth st
      (s.tables.rolesIn s.settings.hierarchyMaxDepth a st))
    (s.tables.rolesIn s.settings.hierarchyMaxDepth b st).contains = true ↔ _
  simp only [List.any_eq_true, List.contains_iff_mem, heffective, Tables.below, List.mem_flatMap,
    h.isAbove_iff]
  constructor
  · rintro ⟨others, ⟨mine, hmine, hbelow⟩, hothers⟩
    exact ⟨mine, others, hmine, hothers, hst, hbelow⟩
  · rintro ⟨mine, others, hmine, hothers, -, hbelow⟩
    exact ⟨others, ⟨mine, hmine, hbelow⟩, hothers⟩

/-- Among the roles of a superior there is one that no effective role of the
subordinate is above. -/
theorem Reliable.exists_beyond (h : s.Reliable) (hsub : Subordinate s.tables st a b)
    (hroles : ∃ role, s.tables.HasRole b st role) : ∃ top, s.tables.HasRole b st top ∧
      ∀ mine, s.HasEffective a st mine → ¬ Relation.TransGen (s.tables.Manages st) mine top := by
  obtain ⟨role, hrole⟩ := hroles
  obtain ⟨top, htop, hnone⟩ :=
    exists_top (h.sound.acyclic st) (fun a b c => Relation.TransGen.trans)
    (List.ne_nil_of_mem (Tables.mem_directRoles.mpr hrole))
  refine ⟨top, Tables.mem_directRoles.mp htop, fun mine hmine habove => ?_⟩
  obtain ⟨direct, hdirect, hreach⟩ := hmine.direct
  obtain ⟨upper, hupper, hover⟩ := hsub direct hdirect
  have hpast : Relation.TransGen (s.tables.Manages st) upper top :=
    hover.trans (Relation.TransGen.trans_right hreach habove)
  exact hnone upper (Tables.mem_directRoles.mpr hupper) hpast

/-- One user may act on another just when an effective role of the first is above one of the second.
So whoever has only roles below those of another user may not act on that user if these roles manage
none; where no path of active edges is longer than the settings look, this is the only case in which
it is refused.  Still a superior who has a role has one that no effective role of the subordinate is
above. -/
theorem canAct_subordinate (s : Session) (moves : List Move) (hs : Unlinked shared s moves)
    (hrenewed : Renewed moves) (st a b : ℤ) (hst : fits st) (ha : fits a) (hb : fits b) :
    let s' := s.afterMoves moves
    ∃ answer, (outcome (canAct (.int a) (.int b) (.int st)) s').1 = .ok answer ∧
      (answer = true ↔ ∃ mine others, s'.HasEffective a st mine ∧ s'.HasEffective b st others ∧
        s'.IsAbove st mine others) ∧
      (Subordinate s'.tables st a b →
        ((∀ role lower, s'.tables.HasRole a st role → ¬ s'.tables.Manages st role lower) →
          answer = false) ∧
        (s'.Shallow st → (answer = true ↔
          ∃ role lower, s'.tables.HasRole a st role ∧ s'.tables.Manages st role lower)) ∧
        ((∃ role, s'.tables.HasRole b st role) → ∃ top, s'.tables.HasRole b st top ∧
          ∀ mine, s'.HasEffective a st mine →
            ¬ Relation.TransGen (s'.tables.Manages st) mine top)) := by
  intro s'
  have h : s'.Reliable := hs.reliable hrenewed
  obtain ⟨answer, hanswer, htrue⟩ := h.canAct ha hb hst
  refine ⟨answer, hanswer, htrue, fun hsub => ?_⟩
  have hmanages : answer = true →
      ∃ role lower, s'.tables.HasRole a st role ∧ s'.tables.Manages st role lower := by
    intro hyes
    obtain ⟨mine, others, hmine, -, habove⟩ := htrue.mp hyes
    exact hmine.manages (h.transGen_of_isAbove habove)
  refine ⟨fun hnone => ?_, fun hshallow => ⟨hmanages, ?_⟩, h.exists_beyond hsub⟩
  · by_contra hyes
    obtain ⟨role, lower, hrole, hlower⟩ := hmanages (by simpa using hyes)
    exact hnone role lower hrole hlower
  · -- What the subordinate manages, the superior has as well.
    rintro ⟨role, lower, hrole, hlower⟩
    obtain ⟨upper, hupper, hover⟩ := hsub role hrole
    exact htrue.mpr ⟨role, lower, .inl hrole, hshallow.hasEffective hupper (hover.tail hlower),
      (h.isAbove_iff_transGen hshallow hst).mpr (.single hlower)⟩

set_option maxRecDepth 4000 in
theorem assignments_ranked : (threeRoles.afterMoves ranked).tables.assignments.map
    (fun r => (r.user, r.store, r.isActive, r.role)) = [(1, 1, true, 2), (2, 1, true, 1)] := by cbv

theorem hasRole_ranked {user role : ℤ} : (threeRoles.afterMoves ranked).tables.HasRole user 1 role ↔
    (user = 1 ∧ role = 2) ∨ (user = 2 ∧ role = 1) := by
  have hmem : (threeRoles.afterMoves ranked).tables.HasRole user 1 role ↔
      (user, (1 : ℤ), true, role) ∈
      (threeRoles.afterMoves ranked).tables.assignments.map fun r =>
        (r.user, r.store, r.isActive, r.role) := by
    simp only [Tables.HasRole, List.mem_map, Prod.mk.injEq]
  rw [hmem, assignments_ranked]
  simp

theorem subordinate_ranked : Subordinate (threeRoles.afterMoves ranked).tables 1 1 2 := by
  intro role hrole
  obtain rfl : role = 2 := by simpa using hasRole_ranked.mp hrole
  exact ⟨1, hasRole_ranked.mpr (.inr ⟨rfl, rfl⟩), .single (manages_ranked.mpr (.inl ⟨rfl, rfl⟩))⟩

/-- The head has the staff below as well, so the lead may act on the head. -/
theorem canAct_subordinate_ranked :
    (outcome (canAct (.int 1) (.int 2) (.int 1)) (threeRoles.afterMoves ranked)).1 = .ok true := by
  obtain ⟨answer, hanswer, -, hsub⟩ := canAct_subordinate threeRoles ranked unlinked_ranked
    renewed_ranked 1 1 2 (by decide) (by decide) (by decide)
  obtain ⟨-, hmanages, -⟩ := hsub subordinate_ranked
  have hyes : answer = true := (hmanages shallow_ranked).mpr
    ⟨2, 3, hasRole_ranked.mpr (.inl ⟨rfl, rfl⟩), manages_ranked.mpr (.inr ⟨rfl, rfl⟩)⟩
  rw [hanswer, hyes]

set_option maxRecDepth 4000 in
/-- Not every subordinate is kept from acting on a superior. -/
theorem acts_on_superior :
    ¬ ∀ (shared : Bool) (s : Session) (moves : List Move), Unlinked shared s moves →
      Renewed moves → ∀ st a b,
      (∃ role, (s.afterMoves moves).tables.HasRole a st role) →
      (∃ role, (s.afterMoves moves).tables.HasRole b st role) →
      Subordinate (s.afterMoves moves).tables st a b →
      (outcome (canAct (.int a) (.int b) (.int st)) (s.afterMoves moves)).1 = .ok false := by
  intro hclaim
  have hno := hclaim false threeRoles ranked unlinked_ranked renewed_ranked 1 1 2
    ⟨2, hasRole_ranked.mpr (.inl ⟨rfl, rfl⟩)⟩ ⟨1,
      hasRole_ranked.mpr (.inr ⟨rfl, rfl⟩)⟩ subordinate_ranked
  have hyes : (outcome (canAct (.int 1) (.int 2) (.int 1)) (threeRoles.afterMoves ranked)).1 =
      .ok true := by cbv
  rw [hyes] at hno
  cases hno

end Session
end AccessControl
