import AccessControl.Proofs.Session.Requests
import Mathlib

/-! # Stores are apart

Whatever a session has gone through, a call of the hierarchy or of the assignments that is
not about a store changes no answer about it, with or without a cache, nor its epoch; and
what is answered without a cache depends on the rows of the store and on what all stores
share alone (`stores_isolated`). -/

namespace AccessControl
namespace Session

open Cache Database

variable {shared : Bool} {left : ℕ} {st : ℤ} {s s' : Session} {m m' : View} {move : Move}
  {moves : List Move}

/-! ### Kept graphs -/

theorem truth_event (h : Orderly shared left s m) (hs : TrueGraphs s) (event : Event) :
    TrueGraphs (s.afterEvent event) := by
  cases event with
  | hierarchy call => exact truth_hierarchyCall hs h.tables.edges true call
  | assignment call => exact truth_assignmentCall hs true call
  | query query =>
      obtain ⟨m', hconsulted, -⟩ := orderly_query h query
      exact hconsulted.truth hs
  | advance seconds => exact hs
  | commit => exact hs

/-- The graphs that are kept stay true, unless changes are given up while the session goes on. -/
theorem truth_move (h : Orderly shared left s m) (hs : TrueGraphs s) (hdelivered : move.Delivered)
    (hmove : move ≠ .rollback) : TrueGraphs (s.afterMove move) := by
  cases move with
  | action action =>
      cases action with
      | rules call => exact truth_rulePath (path_ruleCall call s) hs
      | authorize request user roles permissions abilities =>
          have huser := callerOf_userId user roles permissions abilities
          obtain ⟨m', hconsulted, -⟩ := (ends_authorize huser hdelivered true h).after
          exact hconsulted.truth hs
      | event event => exact truth_event h hs event
  | hierarchy call => exact truth_hierarchyCall hs h.tables.edges false call
  | assignment call => exact truth_assignmentCall hs false call
  | permissions user store =>
      obtain ⟨m', hconsulted, -⟩ := (ends_effectivePermissions h false user store).after
      exact hconsulted.truth hs
  | find service method =>
      obtain ⟨m', hconsulted, -⟩ := (ends_find h service method).after
      exact hconsulted.truth hs
  | rollback => exact absurd rfl hmove
  | reopen => exact fun kept hkept => absurd hkept List.not_mem_nil

theorem truth_moves (h : Orderly shared (methods.length * moves.length + left) s m)
    (hs : TrueGraphs s) (hdelivered : ∀ move ∈ moves, move.Delivered)
    (hmoves : ∀ move ∈ moves, move ≠ .rollback) :
    TrueGraphs (s.afterMoves moves) := by
  induction moves generalizing s m with
  | nil => exact hs
  | cons move moves ih =>
      obtain ⟨hdelivered', hrest⟩ := List.forall_mem_cons.mp hdelivered
      obtain ⟨hmove, hothers⟩ := List.forall_mem_cons.mp hmoves
      rw [List.length_cons, Nat.mul_succ, Nat.add_right_comm] at h
      obtain ⟨m₁, h₁⟩ := orderly_move h hdelivered'
      exact ih h₁ (truth_move h hs hdelivered' hmove) hrest hothers

theorem Ready.truth (h : Ready shared s moves) (hmoves : ∀ move ∈ moves, move ≠ .rollback) :
    TrueGraphs (s.afterMoves moves) := by
  have hstart : Orderly shared (methods.length * moves.length + 0) s fun _ => none := h.start
  refine truth_moves hstart (fun kept hkept => ?_) h.delivered hmoves
  rw [h.fresh.graphs] at hkept
  cases hkept

/-! ### Calls elsewhere -/

/-- A call of the hierarchy or of the assignments, with or without a cache, that is not about a
store. -/
def Move.Elsewhere (st : ℤ) : Move → Prop
  | .hierarchy call => call.store ≠ st
  | .assignment call => st ∉ call.stores
  | .action (.event (.hierarchy call)) => call.store ≠ st
  | .action (.event (.assignment call)) => st ∉ call.stores
  | _ => False

theorem orderly_elsewhere (h : Orderly shared (left + 1) s m) (hmove : move.Elsewhere st) :
    ∃ m', Orderly shared left (s.afterMove move) m' ∧ Untouched st s m (s.afterMove move) m' := by
  have h₁ := h.mono (Nat.le_succ left)
  unfold Move.Elsewhere at hmove
  split at hmove
  · exact (orderly_hierarchyCall h false _).imp fun _ => And.imp_right fun huntouched =>
      huntouched st hmove
  · exact (orderly_assignmentCall h₁ false _).imp fun _ => And.imp_right fun huntouched =>
      huntouched st hmove
  · exact (orderly_hierarchyCall h true _).imp fun _ => And.imp_right fun huntouched =>
      huntouched st hmove
  · exact (orderly_assignmentCall h₁ true _).imp fun _ => And.imp_right fun huntouched =>
      huntouched st hmove
  · exact hmove.elim

theorem Ready.untouched (h : Ready shared s (moves ++ [move])) (hmove : move.Elsewhere st) :
    ∃ left m m', Orderly shared left (s.afterMoves moves) m ∧
      Orderly shared 0 (s.afterMoves (moves ++ [move])) m' ∧
      Untouched st (s.afterMoves moves) m (s.afterMoves (moves ++ [move])) m' := by
  have hstart := h.start
  rw [List.length_append, Nat.mul_add] at hstart
  obtain ⟨m, h₁⟩ :=
    orderly_moves (fun move hmem => h.delivered move (List.mem_append_left _ hmem)) hstart
  have hroom : Orderly shared (0 + 1) (s.afterMoves moves) m :=
    h₁.mono (by rw [List.length_singleton]; decide)
  obtain ⟨m', h₂, huntouched⟩ := orderly_elsewhere hroom hmove
  rw [afterMoves_concat]
  exact ⟨_, m, m', h₁, h₂, huntouched⟩

/-! ### Answers with a cache -/

/-- What stands in the cache for the epoch of a store; null before it is first needed. -/
def epochEntry (s : Session) (st : ℤ) : Except Failure Value :=
  (outcome (read (epochKey s.cache.space (.int st))) s.cache).1

/-- All questions about a store are answered alike, with or without a cache, and its epoch is the
same. -/
structure Unaffected (st : ℤ) (s s' : Session) : Prop where
  uncached : SameAnswers st s s'
  cached : ∀ user, (outcome (effectivePermissions true (.int user) (.int st)) s').1 =
    (outcome (effectivePermissions true (.int user) (.int st)) s).1
  entry : s'.epochEntry st = s.epochEntry st
  epoch : s.epochEntry st ≠ .ok .null →
    (outcome (storeEpoch (.int st)) s'.cache).1 = (outcome (storeEpoch (.int st)) s.cache).1

theorem Untouched.membersOf (h : Untouched st s m s' m') (user : ℤ) :
    s'.membersOf m' user st = s.membersOf m user st := by
  have hremembered : rememberedPermissions s'.cache.space m' user st = rememberedPermissions
      s.cache.space m user st := by
    unfold rememberedPermissions
    rw [h.space, h.epoch]
    simp only [h.permissions]
  unfold Session.membersOf
  rw [hremembered, (local_workOutPermissions user).agrees h.twins]

theorem outcome_cachedPermissions (h : Orderly shared left s m) (user : ℤ) :
    (outcome (effectivePermissions true (.int user) (.int st)) s).1 =
      (s.membersOf m user st).map Value.textsAmong := by
  obtain ⟨s', m', hrun, -⟩ := outcome_permissionMembers h user st
  unfold effectivePermissions
  rw [outcome_bind, hrun]
  cases s.membersOf m user st <;> rfl

theorem Orderly.epochEntry (h : Orderly shared left s m) (st : ℤ) :
    s.epochEntry st = .ok (m.value ((Key.epoch st).text s.cache.space)) := by
  obtain ⟨c, hrun, -⟩ := read_spec h.represents ((Key.epoch st).text s.cache.space)
  exact congrArg Prod.fst hrun

theorem Orderly.storeEpoch (h : Orderly shared left s m) {p : Value × Option ℤ}
    (hp : m ((Key.epoch st).text s.cache.space) = some p) : ∃ n, p.1 = .int n ∧
      (outcome (Cache.storeEpoch (.int st)) s.cache).1 = .ok n := by
  obtain ⟨n, hstands, c, hrun, -⟩ := readCounter_spec h.represents (h.holds.epoch st) h.countable
  refine ⟨n, ?_, ?_⟩
  · rcases hstands with hn | ⟨hnone, -⟩
    · rw [Option.some.inj (hp.symm.trans hn)]
    · rw [hp] at hnone
      cases hnone
  · unfold Cache.storeEpoch
    rw [outcome_bind, outcome_get, andThen_ok, Key.text_epoch, hrun]

/-- A store that is untouched is unaffected. -/
theorem Untouched.unaffected {left' : ℕ} (h : Untouched st s m s' m') (hs : Orderly shared left s m)
    (hs' : Orderly shared left' s' m') : Unaffected st s s' where
  uncached := h.twins.sameAnswers
  cached user := by rw [outcome_cachedPermissions hs, outcome_cachedPermissions hs', h.membersOf]
  entry := by rw [hs.epochEntry, hs'.epochEntry, h.space, View.value, View.value, h.epoch]
  epoch hsome := by
    rw [hs.epochEntry, View.value] at hsome
    cases hp : m ((Key.epoch st).text s.cache.space) with
    | none =>
        rw [hp] at hsome
        exact absurd rfl hsome
    | some p =>
        obtain ⟨n, hn, hrun⟩ := hs.storeEpoch hp
        have hp' : m' ((Key.epoch st).text s'.cache.space) = some p := by rw [h.space, h.epoch, hp]
        obtain ⟨k, hk, hrun'⟩ := hs'.storeEpoch hp'
        obtain rfl : n = k := by simpa [hn] using hk
        rw [hrun, hrun']

/-- A call elsewhere leaves a store unaffected, whatever the session went through; and
sessions in which nothing was given up give the same answers without a cache when their
tables agree on the store. -/
theorem stores_isolated (st : ℤ) :
    (∀ (shared : Bool) (s : Session) (moves : List Move) (move : Move),
      Ready shared s (moves ++ [move]) →
      move.Elsewhere st → Unaffected st (s.afterMoves moves) (s.afterMoves (moves ++ [move]))) ∧
    ∀ (shared shared' : Bool) (s s' : Session) (moves moves' : List Move), Ready shared s moves →
      Ready shared' s' moves' → (∀ move ∈ moves ++ moves', move ≠ .rollback) →
      (s'.afterMoves moves').settings.hierarchyMaxDepth =
        (s.afterMoves moves).settings.hierarchyMaxDepth →
      (s.afterMoves moves).tables.AgreesOn st (s'.afterMoves moves').tables →
      SameAnswers st (s.afterMoves moves) (s'.afterMoves moves') := by
  constructor
  · intro shared s moves move hready hmove
    obtain ⟨left, m, m', h, h', huntouched⟩ := hready.untouched hmove
    exact huntouched.unaffected h h'
  · intro shared shared' s s' moves moves' hready hready' hmoves hdepth htables
    have htrue := hready.truth fun move hmem => hmoves move (List.mem_append_left _ hmem)
    have htrue' := hready'.truth fun move hmem => hmoves move (List.mem_append_right _ hmem)
    exact (twins_of_agreesOn htrue htrue' hdepth htables).sameAnswers

/-- Two stores, with a user and two roles; one of them may read orders. -/
def twoStores : Session :=
  let tables : Tables :=
    { oneStore.tables with stores := oneStore.tables.stores ++ [⟨2, "B", "Store B", .null, true⟩] }
  { oneStore with tables := tables, saved := tables }

/-- The user joins the staff of the first store, and is asked about. -/
def joinsFirst : List Move :=
  [.action (.event (.assignment (.assign 1 2 1 .null true))),
   .action (.event (.query (.permissions 1 1)))]

/-- The user comes to head the second store. -/
def headsSecond : Move := .action (.event (.assignment (.assign 1 1 2 .null true)))

theorem stores_isolated_twoStores :
    (twoStores.afterMoves (joinsFirst ++ [headsSecond])).tables.assignments.length = 2 ∧
    Unaffected 1 (twoStores.afterMoves joinsFirst)
      (twoStores.afterMoves (joinsFirst ++ [headsSecond])) ∧
    SameAnswers 1 (twoStores.afterMoves joinsFirst)
      (twoStores.afterMoves (joinsFirst ++ [headsSecond])) := by
  have hready : ∀ moves, (∀ move ∈ moves, move.Delivered) → Ready false twoStores moves :=
    fun moves hmoves => ready_memory rfl rfl rfl rfl rfl rfl hmoves
  have hjoined : Ready false twoStores joinsFirst := hready _ (by simp [joinsFirst, Move.Delivered])
  have hboth : Ready false twoStores (joinsFirst ++ [headsSecond]) :=
    hready _ (by simp [joinsFirst, headsSecond, Move.Delivered])
  have helsewhere : headsSecond.Elsewhere 1 := by
    simp [headsSecond, Move.Elsewhere, AssignmentCall.stores]
  obtain ⟨_, _, _, _, _, huntouched⟩ := hboth.untouched helsewhere
  refine ⟨by
    decide +kernel, (stores_isolated 1).1 false twoStores joinsFirst headsSecond hboth helsewhere,
      ?_⟩
  exact (stores_isolated 1).2 false false twoStores twoStores joinsFirst
    (joinsFirst ++ [headsSecond]) hjoined hboth
    (by simp [joinsFirst, headsSecond]) huntouched.twins.depth huntouched.twins.tables

end Session
end AccessControl
